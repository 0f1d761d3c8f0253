import Lox.Decimal.Numeral
import Lox.Proofs.Decimal.ReadBack

/-! Numerals with a sign, a point and an exponent. A numeral whose number lies in the interval of a
double is read as that double, and a whole number below `2^53` exactly. -/
namespace Lox.Decimal

open Float.Model Float.Model.UnpackedFloat

/-- Multiplying gives the double in whose interval the product lies. -/
theorem mul_of_inInterval {M m₁ m₂ : Nat} {q e₁ e₂ : Int} (h₁ : 0 < m₁) (h₂ : 0 < m₂)
    (hFull : 2 ^ 52 ≤ m₁) (hDouble : IsDouble M q)
    (h : InInterval M q (m₁ * 2 ^ e₁ * (m₂ * 2 ^ e₂))) :
    UnpackedFloat.mul Format.binary64 (.finite .positive m₁ e₁ h₁) (.finite .positive m₂ e₂ h₂) =
      .finite .positive M q hDouble.pos := by
  simp only [UnpackedFloat.mul]
  refine roundWithAccuracy_of_inInterval _ hDouble h ?_ ?_
  · simp only [ExtendedMantissa.ofMantissaAndAccuracy, Truncates]
    rw [zpow_add₀ (by norm_num)]
    push_cast
    ring
  · have hLog : 52 ≤ (m₁ * m₂).log2 :=
      (Nat.le_log2 (by positivity)).mpr (hFull.trans (Nat.le_mul_of_pos_right _ h₂))
    rw [targetExponent_eq, totalExponent]
    omega

/-- No number in the interval of a double is beyond the doubles. -/
theorem InInterval.le {M : Nat} {q : Int} {v : ℚ} (hDouble : IsDouble M q) (h : InInterval M q v) :
    v ≤ 2 ^ 1024 := by
  have hMantissa : ((M : ℚ) + 1 / 2) ≤ 2 ^ 53 := by
    have : (M : ℚ) + 1 ≤ 2 ^ 53 := by exact_mod_cast hDouble.mantissa_lt
    linarith
  have hPower : (2 : ℚ) ^ q ≤ 2 ^ (971 : Int) := zpow_le_zpow_right₀ (by norm_num) hDouble.exponent_le
  calc v ≤ (M + 1 / 2) * 2 ^ q := h.high
    _ ≤ 2 ^ 53 * 2 ^ (971 : Int) := by gcongr
    _ = 2 ^ 1024 := by
        rw [show (971 : Int) = ((971 : Nat) : Int) by rfl, zpow_natCast, ← pow_add]

/-- Reading a decimal with zeros to add gives the double in whose interval the number lies. -/
theorem ofScientific_of_inInterval_mul {M n p : Nat} {q : Int} (hDouble : IsDouble M q)
    (h : InInterval M q (n * 10 ^ p)) : Float.ofScientific n false p = hDouble.toFloat := by
  have hValue := h.pos hDouble
  have hn : 0 < n := by
    rcases Nat.eq_zero_or_pos n with hZero | hPos
    · rw [hZero] at hValue
      have : (0 : ℚ) < 2 ^ (-1075 : Int) := by positivity
      simp only [Nat.cast_zero, zero_mul] at hValue
      linarith
    · exact hPos
  rw [Float.ofScientific]
  split
  next hFast =>
    -- both factors are exact, so their product is rounded once
    have hSize : p < Float.exactlyRepresentablePowersOfTen.size := Nat.lt_succ_of_le hFast.2
    obtain ⟨m₂, e₂, h₂, hPower, hTen⟩ := unpack_powerOfTen hSize
    have hNumber := unpack_toFloat hn hFast.1
    have hLog : n.log2 < 53 := (Nat.log2_lt hn.ne').mpr hFast.1
    have hFull : 2 ^ 52 ≤ n * 2 ^ (52 - n.log2) :=
      (isDouble_ofNat hn hFast.1).full.resolve_right (by omega)
    simp only [Bool.false_eq_true, ↓reduceIte]
    change Float.ofModel (.pack (UnpackedFloat.mul Format.binary64 n.toUInt64.toFloat.toModel.unpack
      Float.exactlyRepresentablePowersOfTen[p].toModel.unpack)) = _
    rw [hNumber, hPower, mul_of_inInterval _ _ hFull hDouble]
    · rfl
    · rw [value_ofNat hLog, hTen]
      exact h
  next hSlow =>
    -- more zeros than that would take the number beyond the doubles
    have hPlaces : p ≤ 1024 := by
      have hOne : (1 : ℚ) ≤ n := by exact_mod_cast hn
      have hPower : (2 : ℚ) ^ p ≤ 2 ^ 1024 :=
        calc (2 : ℚ) ^ p ≤ 10 ^ p := pow_le_pow_left₀ (by norm_num) (by norm_num) p
          _ ≤ n * 10 ^ p := le_mul_of_one_le_left (by positivity) hOne
          _ ≤ 2 ^ 1024 := h.le hDouble
      exact (pow_le_pow_iff_right₀ (by norm_num : (1 : ℚ) < 2)).mp hPower
    change Float.ofModel (.pack (UnpackedFloat.ofScientific Format.binary64 n (Int.ofNat p))) = _
    rw [Int.ofNat_eq_natCast, UnpackedFloat.ofScientific, dif_neg hn.ne',
      if_neg (by simp; omega), if_neg (by simp; omega), if_pos (by omega)]
    have hShift : (n <<< 53 : Nat) = n * 2 ^ 53 := Nat.shiftLeft_eq n 53
    have hFull : 2 ^ 52 ≤ n <<< 53 := by omega
    have hMul : UnpackedFloat.mul Format.binary64
        (.finite .positive (n <<< 53) (-53) (by omega)) (.finite .positive (10 ^ p) 0 (by positivity)) =
          .finite .positive M q hDouble.pos := by
      refine mul_of_inInterval _ _ hFull hDouble ?_
      rw [hShift, zpow_neg]
      push_cast
      convert h using 1
      field_simp
    exact congrArg (fun f => Float.ofModel (.pack f)) hMul

namespace IsDouble

variable {M : Nat} {q : Int}

theorem isInf_toFloat (h : IsDouble M q) : h.toFloat.isInf = false := by
  change h.toFloat.toModel.unpack.isInf = false
  rw [h.unpack_toFloat]
  rfl

theorem isNaN_toFloat (h : IsDouble M q) : h.toFloat.isNaN = false := by
  change h.toFloat.toModel.unpack.isNaN = false
  rw [h.unpack_toFloat]
  rfl

theorem isNegative_toFloat (h : IsDouble M q) : isNegative h.toFloat = false := by
  have hBits := exponentBits_lt h
  have hNat := h.toNat_toBits
  rw [isNegative_eq, hNat]
  simp only [beq_eq_false_iff_ne]
  omega

/-- A double has the mantissa and the exponent that it was made of. -/
theorem ofFloat_toFloat (h : IsDouble M q) : Dyadic.ofFloat h.toFloat = ⟨M, q⟩ := by
  have hNat := h.toNat_toBits
  rw [Dyadic.ofFloat_eq]
  generalize h.toFloat.toBits.toNat = bits at hNat
  obtain ⟨hPos, hLt, hLeast, hMost, hFull⟩ := h
  rw [exponentBits] at hNat
  split at hNat
  next hNormal =>
    rw [if_neg (by omega), Dyadic.mk.injEq]
    constructor <;> omega
  next hSmall =>
    rw [if_pos (by omega), Dyadic.mk.injEq]
    constructor <;> omega

end IsDouble

/-- Rounding the double of a whole number toward zero gives the number. -/
theorem floor_toFloat {n : Nat} (hPos : 0 < n) (hLt : n < 2 ^ 53) :
    (Dyadic.ofFloat (isDouble_ofNat hPos hLt).toFloat).floor = n := by
  have hLog : n.log2 < 53 := (Nat.log2_lt hPos.ne').mpr hLt
  have hScale : 0 < 2 ^ (52 - n.log2) := by positivity
  rw [IsDouble.ofFloat_toFloat, Dyadic.floor, Dyadic.ratio]
  simp only [Nat.pow_eq]
  split
  next h =>
    have hTop : 52 - n.log2 = 0 := by omega
    have hExponent : ((n.log2 : Int) - 52).toNat = 0 := by omega
    simp [hTop, hExponent]
  next h =>
    have hExponent : (-((n.log2 : Int) - 52)).toNat = 52 - n.log2 := by omega
    rw [hExponent, Nat.mul_div_cancel _ hScale]

theorem floor_zero : (Dyadic.ofFloat 0.0).floor = 0 := by
  have hZero : Dyadic.ofFloat 0.0 = ⟨0, -1074⟩ := by decide
  rw [hZero, Dyadic.floor, Dyadic.ratio, if_neg (by decide), Nat.zero_div]

/-- A double with a magnitude other than zero, taken apart. -/
theorem unpack_eq_finite {x : Float} (hOnes : x.toBits.toNat / 2 ^ 52 % 2 ^ 11 ≠ 2047)
    (h : IsDouble (Dyadic.ofFloat x).m (Dyadic.ofFloat x).q) :
    x.toModel.unpack = .finite (signOf x.toModel.toBits.toBitVec) (Dyadic.ofFloat x).m
      (Dyadic.ofFloat x).q h.pos := by
  have hPos := h.pos
  change unpack Format.binary64 x.toModel.toBits.toBitVec = _
  rw [Dyadic.ofFloat_eq] at hPos
  simp only [Dyadic.ofFloat_eq]
  by_cases hZero : x.toBits.toNat / 2 ^ 52 % 2 ^ 11 = 0
  · rw [if_pos hZero] at hPos
    simp only [if_pos hZero]
    exact unpack_of_subnormal hZero hPos
  · simp only [if_neg hZero]
    exact unpack_of_normal hZero hOnes

/-- A double without its sign is made of its mantissa and exponent. -/
theorem abs_eq_toFloat {x : Float} (hOnes : x.toBits.toNat / 2 ^ 52 % 2 ^ 11 ≠ 2047)
    (h : IsDouble (Dyadic.ofFloat x).m (Dyadic.ofFloat x).q) : x.abs = h.toFloat := by
  change Float.ofModel (.pack x.toModel.unpack.abs) = _
  rw [unpack_eq_finite hOnes h]
  rfl

/-- Only zero has no mantissa. -/
theorem abs_eq_zero {x : Float} (h : (Dyadic.ofFloat x).m = 0) :
    x.abs = 0.0 ∧ Dyadic.ofFloat x = ⟨0, -1074⟩ := by
  have hLt := x.toBits.toNat_lt
  -- only the two zeros have no mantissa
  have hBits : x.toBits.toNat = 0 ∨ x.toBits.toNat = 2 ^ 63 := by
    rw [Dyadic.ofFloat_eq] at h
    generalize x.toBits.toNat = bits at h hLt
    split at h <;> dsimp only at h <;> omega
  rcases hBits with hBits | hBits
  · obtain rfl : x = 0.0 := eq_of_toNat_toBits hBits
    decide
  · obtain rfl : x = -0.0 := eq_of_toNat_toBits hBits
    decide

/-- A finite double without its sign is a finite double of the same magnitude. -/
theorem abs_of_finite {x : Float} (hNaN : x.isNaN = false) (hInf : x.isInf = false) :
    x.abs.isNaN = false ∧ x.abs.isInf = false ∧ isNegative x.abs = false ∧
      Dyadic.ofFloat x.abs = Dyadic.ofFloat x := by
  have hOnes := exponent_ne_of_finite hNaN hInf
  by_cases hm : (Dyadic.ofFloat x).m = 0
  · obtain ⟨hAbs, hZero⟩ := abs_eq_zero hm
    rw [hAbs, hZero]
    decide
  · have hDouble := isDouble_ofFloat hOnes hm
    rw [abs_eq_toFloat hOnes hDouble]
    exact ⟨hDouble.isNaN_toFloat, hDouble.isInf_toFloat, hDouble.isNegative_toFloat,
      hDouble.ofFloat_toFloat⟩

/-- A finite negative number is written as its magnitude after a minus sign. -/
theorem numberText_of_negative {x : Float} (hNaN : x.isNaN = false) (hInf : x.isInf = false)
    (hSign : isNegative x = true) : Value.numberText x = 45 :: Value.numberText x.abs := by
  obtain ⟨hNaN', hInf', hSign', hMagnitude⟩ := abs_of_finite hNaN hInf
  have hMinus : Text.ofString "-" = [45] := by decide
  have hNoSign : Text.ofString "" = [] := by decide
  simp only [Value.numberText, hNaN, hInf, hSign, hNaN', hInf', hSign', hMagnitude, hMinus, hNoSign,
    Bool.false_eq_true, ↓reduceIte, Text.concat]
  split <;> simp

/-- Zeros in front do not count. -/
theorem digitsValue_dropZeros (t : Text) : digitsValue (t.dropWhile (· == 48)) = digitsValue t := by
  induction t with
  | nil => rfl
  | cons b t ih =>
      by_cases hb : b = 48
      · rw [List.dropWhile_cons_of_pos (by simp [hb]), ih, hb]
        rfl
      · rw [List.dropWhile_cons_of_neg (by simp [hb])]

theorem toNat_of_isDigit {b : UInt8} (h : isDigit b = true) : 48 ≤ b.toNat ∧ b.toNat ≤ 57 := by
  simpa [isDigit, UInt8.le_iff_toNat_le] using h

/-- What the first digit adds to the value of the others. -/
theorem digitsValue_cons (b : UInt8) (t : Text) :
    digitsValue (b :: t) = (b.toNat - 48) * 10 ^ t.length + digitsValue t := by
  have hSingle : digitsValue [b] = b.toNat - 48 := by simp [digitsValue]
  rw [← List.singleton_append, digitsValue_append, hSingle]

/-- A row of digits has a value below the power of ten of its length. -/
theorem digitsValue_lt {t : Text} (h : ∀ b ∈ t, isDigit b = true) : digitsValue t < 10 ^ t.length := by
  induction t with
  | nil => simp [digitsValue]
  | cons b t ih =>
      obtain ⟨hb, hRest⟩ := List.forall_mem_cons.mp h
      have hDigit := toNat_of_isDigit hb
      have hLess := ih hRest
      have hPower : 10 ^ (t.length + 1) = 10 * 10 ^ t.length := by ring
      have hTop : (b.toNat - 48) * 10 ^ t.length ≤ 9 * 10 ^ t.length :=
        Nat.mul_le_mul_right _ (by omega)
      rw [digitsValue_cons, List.length_cons, hPower]
      omega

/-- A number has as many digits as its first digit says, unless that is a zero. -/
theorem le_digitsValue {b : UInt8} (hDigit : isDigit b = true) (hb : b ≠ 48) (t : Text) :
    10 ^ t.length ≤ digitsValue (b :: t) := by
  have hNat := toNat_of_isDigit hDigit
  have hNe : b.toNat ≠ 48 := fun hEq => hb (UInt8.toNat_inj.mp hEq)
  rw [digitsValue_cons]
  exact Nat.le_add_right_of_le (Nat.le_mul_of_pos_left _ (by omega))

/-- Digits of which the first counts are not so far from the point that they are not read. -/
theorem size_of_inInterval {M : Nat} {q : Int} {b : UInt8} {row : Text} {scale : Int}
    (hRow : ∀ d ∈ b :: row, isDigit d = true) (hb : b ≠ 48) (hDouble : IsDouble M q)
    (h : InInterval M q (digitsValue (b :: row) * 10 ^ scale)) :
    -400 ≤ scale + ((b :: row).length : Int) ∧ scale + ((b :: row).length : Int) ≤ 400 := by
  have hTen : (1 : ℚ) < 10 := by norm_num
  have hScale : (0 : ℚ) < 10 ^ scale := by positivity
  have hLeast : (10 : ℚ) ^ row.length ≤ digitsValue (b :: row) := by
    exact_mod_cast le_digitsValue (hRow b List.mem_cons_self) hb row
  have hMost : (digitsValue (b :: row) : ℚ) ≤ 10 ^ (row.length + 1) := by
    exact_mod_cast (digitsValue_lt hRow).le
  have hBlock (n : Nat) : (2 : ℚ) ^ (64 * n) ≤ 10 ^ (20 * n) := by
    rw [pow_mul, pow_mul]
    exact pow_le_pow_left₀ (by positivity) (by norm_num) n
  have hInverse (n : Nat) : (10 : ℚ) ^ (-(20 * n : Nat) : Int) ≤ 2 ^ (-(64 * n : Nat) : Int) := by
    rw [zpow_neg, zpow_neg, zpow_natCast, zpow_natCast]
    exact inv_anti₀ (by positivity) (hBlock n)
  constructor
  · have hPower : (10 : ℚ) ^ (-400 : Int) ≤ 10 ^ (scale + (row.length + 1 : Nat)) :=
      calc (10 : ℚ) ^ (-400 : Int) ≤ 2 ^ (-1280 : Int) := hInverse 20
        _ ≤ 2 ^ (-1075 : Int) := zpow_le_zpow_right₀ (by norm_num) (by norm_num)
        _ ≤ digitsValue (b :: row) * 10 ^ scale := h.pos hDouble
        _ ≤ 10 ^ (row.length + 1) * 10 ^ scale := by gcongr
        _ = 10 ^ (scale + (row.length + 1 : Nat)) := by
            rw [zpow_add₀ (by norm_num), zpow_natCast, mul_comm]
    exact (zpow_le_zpow_iff_right₀ hTen).mp hPower
  · have hPower : (10 : ℚ) ^ (scale + (row.length : Int)) ≤ 10 ^ (320 : Int) :=
      calc (10 : ℚ) ^ (scale + (row.length : Int)) = 10 ^ row.length * 10 ^ scale := by
            rw [zpow_add₀ (by norm_num), zpow_natCast, mul_comm]
        _ ≤ digitsValue (b :: row) * 10 ^ scale := by gcongr
        _ ≤ 2 ^ 1024 := h.le hDouble
        _ ≤ 10 ^ (320 : Int) := hBlock 16
    have hExponent := (zpow_le_zpow_iff_right₀ hTen).mp hPower
    rw [List.length_cons]
    push_cast
    omega

theorem head_dropZeros (t : Text) : ∀ b ∈ (t.dropWhile (· == 48)).head?, b ≠ 48 := by
  intro b hb
  have hStop := List.head?_dropWhile_not (· == 48) t
  rw [hb] at hStop
  simpa using hStop

/-- A numeral of zeros is read as zero, with the sign it has. -/
theorem toFloat?_of_zero {digits : Text} {scale : Int} (hDigits : ∀ b ∈ digits, isDigit b = true)
    (h : digitsValue digits = 0) (negative : Bool) :
    Numeral.toFloat? ⟨negative, digits, scale⟩ = some (if negative then -0.0 else 0.0) := by
  have hNone : digits.dropWhile (· == 48) = [] := by
    have hFirst := head_dropZeros digits
    cases hRow : digits.dropWhile (· == 48) with
    | nil => rfl
    | cons b row =>
        rw [hRow] at hFirst
        have hDigit : isDigit b = true :=
          hDigits b ((List.dropWhile_sublist (· == 48)).subset (hRow ▸ List.mem_cons_self))
        have hLe := le_digitsValue hDigit (hFirst b rfl) row
        have hPos : 0 < 10 ^ row.length := by positivity
        rw [← hRow, digitsValue_dropZeros, h] at hLe
        omega
  have hInf : (0.0 : Float).isInf = false := by decide
  simp only [Numeral.toFloat?, hNone, true_or, if_true, hInf, if_neg Bool.false_ne_true]

/-- A numeral in the interval of a double is read as that double, with the sign it has. -/
theorem toFloat?_of_inInterval {M : Nat} {q : Int} {digits : Text} {scale : Int}
    (hDigits : ∀ b ∈ digits, isDigit b = true) (hDouble : IsDouble M q)
    (h : InInterval M q (digitsValue digits * 10 ^ scale)) (negative : Bool) :
    Numeral.toFloat? ⟨negative, digits, scale⟩ =
      some (if negative then -hDouble.toFloat else hDouble.toFloat) := by
  have hRow : ∀ b ∈ digits.dropWhile (· == 48), isDigit b = true :=
    fun b hb => hDigits b ((List.dropWhile_sublist _).subset hb)
  have hFirst := head_dropZeros digits
  rw [← digitsValue_dropZeros digits] at h
  simp only [Numeral.toFloat?]
  generalize digits.dropWhile (· == 48) = row at h hRow hFirst
  have hRead : (if row = [] ∨ scale + (row.length : Int) < -400 then (0.0 : Float)
      else if 400 < scale + (row.length : Int) then 1.0 / 0.0
      else if 0 ≤ scale then Float.ofScientific (digitsValue row) false scale.toNat
      else Float.ofScientific (digitsValue row) true (-scale).toNat) = hDouble.toFloat := by
    cases row with
    | nil =>
        have hValue := h.pos hDouble
        have hPos : (0 : ℚ) < 2 ^ (-1075 : Int) := by positivity
        simp only [digitsValue, List.foldl_nil, Nat.cast_zero, zero_mul] at hValue
        linarith
    | cons b row =>
        obtain ⟨hLow, hHigh⟩ := size_of_inInterval hRow (hFirst b rfl) hDouble h
        rw [if_neg (not_or.mpr ⟨List.cons_ne_nil b row, not_lt.mpr hLow⟩), if_neg (not_lt.mpr hHigh)]
        split
        next hScale =>
          refine ofScientific_of_inInterval_mul hDouble ?_
          rwa [← zpow_natCast, Int.toNat_of_nonneg hScale]
        next hScale =>
          refine ofScientific_of_inInterval hDouble ?_
          rwa [div_eq_mul_inv, ← zpow_natCast, Int.toNat_of_nonneg (by omega), zpow_neg, inv_inv]
  rw [hRead, hDouble.isInf_toFloat, if_neg Bool.false_ne_true]

end Lox.Decimal
