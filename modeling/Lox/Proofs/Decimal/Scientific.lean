import Lox.Proofs.Decimal.Packing

/-! Reading a decimal as a double. The double of a decimal numeral is the one in whose interval the
number lies, and it is never negative. -/
namespace Lox.Decimal

open Float.Model Float.Model.UnpackedFloat

/-- The remaining bits of a quotient are told from its remainder. -/
theorem truncates_accuracyOfFraction {m num den : Nat} {e : Int} {v : ℚ} (hNum : num < den)
    (h : v = (m + num / den) * 2 ^ e) :
    Truncates (.ofMantissaAndAccuracy m (accuracyOfFraction num den)) e v := by
  have hPos : (0 : ℚ) < 2 ^ e := by positivity
  have hDen : (0 : ℚ) < den := by exact_mod_cast (Nat.zero_le num).trans_lt hNum
  have hNum' : (num : ℚ) < den := by exact_mod_cast hNum
  rw [accuracyOfFraction]
  split
  next hZero =>
    rw [hZero] at h
    simpa [ExtendedMantissa.ofMantissaAndAccuracy, Truncates] using h
  next hZero =>
    have hNumPos : (0 : ℚ) < num := by exact_mod_cast Nat.pos_of_ne_zero hZero
    have hFraction : (0 : ℚ) < num / den := by positivity
    rcases Nat.lt_trichotomy (2 * num) den with hLt | hEq | hGt
    · have hHalf : (num : ℚ) / den < 1 / 2 := by
        rw [div_lt_div_iff₀ hDen (by norm_num)]
        have : (2 * num : ℚ) < den := by exact_mod_cast hLt
        linarith
      rw [Nat.compare_eq_lt.mpr hLt]
      simp only [ExtendedMantissa.ofMantissaAndAccuracy, Truncates]
      constructor <;> rw [h] <;> nlinarith
    · have hHalf : (num : ℚ) / den = 1 / 2 := by
        rw [div_eq_div_iff hDen.ne' (by norm_num)]
        have : (2 * num : ℚ) = den := by exact_mod_cast hEq
        linarith
      rw [Nat.compare_eq_eq.mpr hEq]
      simp only [ExtendedMantissa.ofMantissaAndAccuracy, Truncates]
      rw [h, hHalf]
    · have hHalf : 1 / 2 < (num : ℚ) / den := by
        rw [div_lt_div_iff₀ (by norm_num) hDen]
        have : (den : ℚ) < 2 * num := by exact_mod_cast hGt
        linarith
      have hOne : (num : ℚ) / den < 1 := (div_lt_one hDen).mpr hNum'
      rw [Nat.compare_eq_gt.mpr hGt]
      simp only [ExtendedMantissa.ofMantissaAndAccuracy, Truncates]
      constructor <;> rw [h] <;> nlinarith

def quotient (m₁ : Nat) (e₁ : Int) (m₂ : Nat) (e₂ : Int) : ℚ := m₁ * 2 ^ e₁ / (m₂ * 2 ^ e₂)

/-- A lower bound for a quotient by the sizes of its parts. -/
theorem two_zpow_lt_quotient {m₁ m₂ : Nat} (h₁ : m₁ ≠ 0) (h₂ : m₂ ≠ 0) (e₁ e₂ : Int) :
    (2 : ℚ) ^ (totalExponent m₁ e₁ - totalExponent m₂ e₂ - 1) < quotient m₁ e₁ m₂ e₂ := by
  have hPos : (0 : ℚ) < m₂ * 2 ^ e₂ := by
    have : (0 : ℚ) < m₂ := by exact_mod_cast Nat.pos_of_ne_zero h₂
    positivity
  have hLow := two_zpow_le_of_log2 h₁ e₁
  have hHigh : (m₂ : ℚ) * 2 ^ e₂ < 2 ^ ((m₂.log2 : Int) + 1 + e₂) := by
    have := lt_two_zpow_of_log2 m₂ e₂
    have hPow : (0 : ℚ) < 2 ^ e₂ := by positivity
    linarith
  rw [quotient, lt_div_iff₀ hPos]
  calc (2 : ℚ) ^ (totalExponent m₁ e₁ - totalExponent m₂ e₂ - 1) * (m₂ * 2 ^ e₂)
      < 2 ^ (totalExponent m₁ e₁ - totalExponent m₂ e₂ - 1) * 2 ^ ((m₂.log2 : Int) + 1 + e₂) :=
        mul_lt_mul_of_pos_left hHigh (by positivity)
    _ = 2 ^ ((m₁.log2 : Int) + e₁) := by
        rw [← zpow_add₀ (by norm_num)]
        simp only [totalExponent]
        congr 1
        ring
    _ ≤ m₁ * 2 ^ e₁ := hLow

/-- Division yields the quotient cut off, with enough bits to round it. -/
theorem divCore_spec {m₁ m₂ : Nat} (h₁ : m₁ ≠ 0) (h₂ : m₂ ≠ 0) (e₁ e₂ : Int) {m : Nat} {e : Int}
    {accuracy : Accuracy} (h : divCore Format.binary64 m₁ e₁ m₂ e₂ = (m, e, accuracy)) :
    Truncates (.ofMantissaAndAccuracy m accuracy) e (quotient m₁ e₁ m₂ e₂) ∧
      e ≤ Format.binary64.targetExponent (totalExponent m e) := by
  rw [divCore] at h
  generalize hTarget : min (e₁ - e₂) (Format.binary64.targetExponent
    (totalExponent m₁ e₁ - totalExponent m₂ e₂)) = target at h
  simp only [Prod.mk.injEq] at h
  obtain ⟨rfl, rfl, rfl⟩ := h
  have hDen : (m₂ : ℚ) ≠ 0 := by exact_mod_cast h₂
  generalize hShift : (e₁ - e₂ - target).toNat = shift
  have hValue : quotient m₁ e₁ m₂ e₂ =
      ((m₁ <<< shift / m₂ : Nat) + (m₁ <<< shift % m₂ : Nat) / (m₂ : ℚ)) * 2 ^ target := by
    have hSplit : ((m₁ <<< shift / m₂ : Nat) : ℚ) * m₂ + (m₁ <<< shift % m₂ : Nat) =
        m₁ * 2 ^ shift := by
      have := (Nat.div_add_mod' (m₁ <<< shift) m₂).trans (Nat.shiftLeft_eq m₁ shift)
      exact_mod_cast this
    have hExponent : e₁ - e₂ = shift + target := by omega
    rw [quotient, mul_div_mul_comm, ← zpow_sub₀ (by norm_num), hExponent,
      zpow_add₀ (by norm_num), zpow_natCast]
    field_simp
    linarith
  have hTruncates := truncates_accuracyOfFraction
    (Nat.mod_lt (m₁ <<< shift) (Nat.pos_of_ne_zero h₂)) hValue
  refine ⟨hTruncates, ?_⟩
  have hLow := two_zpow_lt_quotient h₁ h₂ e₁ e₂
  have hHigh := hTruncates.lt
  rw [truncates_ofMantissaAndAccuracy_mantissa] at hHigh
  have hLess := hLow.trans_le (hHigh.le.trans (lt_two_zpow_of_log2 _ target))
  have hExponents := (zpow_lt_zpow_iff_right₀ (by norm_num : (1 : ℚ) < 2)).mp hLess
  rw [targetExponent_eq] at hTarget ⊢
  rw [totalExponent]
  by_cases hZero : m₁ <<< shift / m₂ = 0
  · -- the quotient is below the least double, so the exponent is already the least one
    rw [hZero] at hHigh
    simp only [Nat.cast_zero, zero_add, one_mul] at hHigh
    have := (zpow_lt_zpow_iff_right₀ (by norm_num : (1 : ℚ) < 2)).mp (hLow.trans hHigh)
    omega
  · omega

/-- Dividing gives the double in whose interval the quotient lies. -/
theorem div_of_inInterval {M m₁ m₂ : Nat} {q e₁ e₂ : Int} (h₁ : 0 < m₁) (h₂ : 0 < m₂)
    (hDouble : IsDouble M q) (h : InInterval M q (quotient m₁ e₁ m₂ e₂)) :
    UnpackedFloat.div Format.binary64 (.finite .positive m₁ e₁ h₁) (.finite .positive m₂ e₂ h₂) =
      .finite .positive M q hDouble.pos := by
  rcases hCore : divCore Format.binary64 m₁ e₁ m₂ e₂ with ⟨m, e, accuracy⟩
  obtain ⟨hTruncates, hLe⟩ := divCore_spec h₁.ne' h₂.ne' e₁ e₂ hCore
  simp only [UnpackedFloat.div, hCore]
  exact roundWithAccuracy_of_inInterval _ hDouble h hTruncates hLe

/-- A whole number below `2^53` with as many bits as a mantissa has. -/
theorem isDouble_ofNat {n : Nat} (hPos : 0 < n) (hLt : n < 2 ^ 53) :
    IsDouble (n * 2 ^ (52 - n.log2)) ((n.log2 : Int) - 52) := by
  have hLog : n.log2 < 53 := (Nat.log2_lt hPos.ne').mpr hLt
  have hSplit : 2 ^ n.log2 * 2 ^ (52 - n.log2) = 2 ^ 52 := by
    rw [← Nat.pow_add]
    congr 1
    omega
  have hScale : 0 < 2 ^ (52 - n.log2) := by positivity
  have hLow : 2 ^ n.log2 ≤ n := Nat.log2_self_le hPos.ne'
  have hHigh : n < 2 ^ n.log2 * 2 := by
    rw [← Nat.pow_succ]
    exact Nat.lt_log2_self
  constructor
  · positivity
  · calc n * 2 ^ (52 - n.log2) < 2 ^ n.log2 * 2 * 2 ^ (52 - n.log2) :=
          (Nat.mul_lt_mul_right hScale).mpr hHigh
      _ = 2 ^ 53 := by rw [Nat.mul_right_comm, hSplit]; rfl
  · omega
  · omega
  · left
    calc 2 ^ 52 = 2 ^ n.log2 * 2 ^ (52 - n.log2) := hSplit.symm
      _ ≤ n * 2 ^ (52 - n.log2) := Nat.mul_le_mul_right _ hLow

/-- A natural number of at most 53 bits is exact as a double. -/
theorem value_ofNat {n : Nat} (hLog : n.log2 < 53) :
    ((n * 2 ^ (52 - n.log2) : Nat) : ℚ) * 2 ^ ((n.log2 : Int) - 52) = n := by
  have hExponent : ((n.log2 : Int) - 52) = -((52 - n.log2 : Nat) : Int) := by omega
  rw [hExponent, zpow_neg, zpow_natCast]
  push_cast
  field_simp

/-- A whole number below `2^53` is a double, exactly. -/
theorem unpack_toFloat {n : Nat} (hPos : 0 < n) (hLt : n < 2 ^ 53) :
    n.toUInt64.toFloat.toModel.unpack =
      .finite .positive (n * 2 ^ (52 - n.log2)) ((n.log2 : Int) - 52)
        (isDouble_ofNat hPos hLt).pos := by
  have hLog : n.log2 < 53 := (Nat.log2_lt hPos.ne').mpr hLt
  have hNat : n.toUInt64.toNat = n := by
    rw [Nat.toUInt64, UInt64.toNat_ofNat']
    exact Nat.mod_eq_of_lt (by omega)
  have hCompare : compare (n : Int) 0 = .gt := by
    rw [Int.compare_eq_gt]
    omega
  have hRound : UnpackedFloat.ofUInt64 Format.binary64 n.toUInt64 =
      .finite .positive (n * 2 ^ (52 - n.log2)) ((n.log2 : Int) - 52)
        (isDouble_ofNat hPos hLt).pos := by
    have hTarget : Format.binary64.targetExponent (totalExponent n 0) = (n.log2 : Int) - 52 := by
      rw [targetExponent_eq, totalExponent]
      omega
    have hShift : (0 - ((n.log2 : Int) - 52)).toNat = 52 - n.log2 := by omega
    have hDown : (0 : Int) - ((52 - n.log2 : Nat) : Int) = (n.log2 : Int) - 52 := by omega
    rw [UnpackedFloat.ofUInt64, UnpackedFloat.ofNat, UnpackedFloat.ofInt, hNat,
      UnpackedFloat.normalize, hCompare]
    simp only [UnpackedFloat.round, Int.toNat_natCast, hTarget, decreaseExponent, hShift, hDown,
      Nat.shiftLeft_eq]
    refine roundWithAccuracy_of_inInterval _ (isDouble_ofNat hPos hLt) (inInterval_self _ _) ?_ ?_
    · simp only [ExtendedMantissa.ofMantissaAndAccuracy, Truncates]
    · rw [targetExponent_eq, totalExponent]
      have hFull := (isDouble_ofNat hPos hLt).full
      have : 52 ≤ (n * 2 ^ (52 - n.log2)).log2 := by
        refine (Nat.le_log2 (isDouble_ofNat hPos hLt).pos.ne').mpr ?_
        rcases hFull with h | h
        · exact h
        · omega
      omega
  change (Float.Model.pack (UnpackedFloat.ofUInt64 Format.binary64 n.toUInt64)).unpack = _
  rw [hRound]
  exact (isDouble_ofNat hPos hLt).unpack_toFloat

/-- A power of ten that is exactly a double has the mantissa of a power of five. -/
theorem toNat_powerOfTen : ∀ p : Fin Float.exactlyRepresentablePowersOfTen.size,
    Float.exactlyRepresentablePowersOfTen[p].toBits.toNat =
      ((5 ^ p.val).log2 + p.val + 1023) * 2 ^ 52 +
        5 ^ p.val * 2 ^ (52 - (5 ^ p.val).log2) % 2 ^ 52 := by
  decide +kernel

/-- The table of powers of ten holds doubles that are exact. -/
theorem unpack_powerOfTen {p : Nat} (h : p < Float.exactlyRepresentablePowersOfTen.size) :
    ∃ (m : Nat) (e : Int) (hm : 0 < m),
      Float.exactlyRepresentablePowersOfTen[p].toModel.unpack = .finite .positive m e hm ∧
        (m : ℚ) * 2 ^ e = 10 ^ p := by
  have hp : p ≤ 22 := Nat.le_of_lt_succ h
  have hFive : 5 ^ p < 2 ^ 53 := lt_of_le_of_lt
    (Nat.pow_le_pow_right (by norm_num) hp) (by norm_num)
  have hLog : (5 ^ p).log2 < 53 := (Nat.log2_lt (by positivity)).mpr hFive
  obtain ⟨hPos, hLt, hLeast, _, hFull⟩ := isDouble_ofNat (by positivity : 0 < 5 ^ p) hFive
  have hNormal : 2 ^ 52 ≤ 5 ^ p * 2 ^ (52 - (5 ^ p).log2) := hFull.resolve_right (by omega)
  have hDouble : IsDouble (5 ^ p * 2 ^ (52 - (5 ^ p).log2)) (((5 ^ p).log2 : Int) - 52 + p) :=
    ⟨hPos, hLt, by omega, by omega, Or.inl hNormal⟩
  have hEq : Float.exactlyRepresentablePowersOfTen[p] = hDouble.toFloat := by
    have hBits := toNat_powerOfTen ⟨p, h⟩
    simp only [Fin.getElem_fin] at hBits
    apply eq_of_toNat_toBits
    rw [hBits, hDouble.toNat_toBits, exponentBits, if_pos hNormal]
    congr 2
    omega
  refine ⟨_, ((5 ^ p).log2 : Int) - 52 + p, hDouble.pos, ?_, ?_⟩
  · rw [hEq]
    exact hDouble.unpack_toFloat
  · rw [zpow_add₀ (by norm_num), ← mul_assoc, value_ofNat hLog, zpow_natCast]
    push_cast
    rw [← mul_pow]
    norm_num

/-- Rounding a natural number to the double whose interval it is in. -/
theorem toFloat_eq_of_mul_one {M n : Nat} {q : Int} (hn : 0 < n) (hDouble : IsDouble M q)
    (h : InInterval M q n) :
    UnpackedFloat.mul Format.binary64 (.finite .positive (n <<< 53) (-53) (by simpa using hn))
        (.finite .positive 1 0 Nat.one_pos) = .finite .positive M q hDouble.pos := by
  simp only [UnpackedFloat.mul, Nat.mul_one, Int.add_zero]
  refine roundWithAccuracy_of_inInterval _ hDouble h ?_ ?_
  · simp only [ExtendedMantissa.ofMantissaAndAccuracy, Truncates, Nat.shiftLeft_eq]
    rw [zpow_neg]
    push_cast
    field_simp
  · have hLog : 53 ≤ (n <<< 53).log2 := by
      rw [Nat.shiftLeft_eq]
      exact (Nat.le_log2 (by positivity)).mpr (Nat.le_mul_of_pos_left _ hn)
    rw [targetExponent_eq, totalExponent]
    omega

/-- A decimal in the interval of a double does not have so many places that it is taken for zero. -/
theorem places_le_of_inInterval {M n p : Nat} {q : Int} (hDouble : IsDouble M q)
    (h : InInterval M q (n / 10 ^ p)) : p ≤ 2048 + n.log2 := by
  by_contra hNot
  have hValue := h.pos hDouble
  have hTen : (2 : ℚ) ^ p * 2 ^ p ≤ 10 ^ p := by
    rw [← mul_pow]
    exact pow_le_pow_left₀ (by norm_num) (by norm_num) p
  have hn : (n : ℚ) < 2 ^ p := by
    have : n < 2 ^ p := lt_of_lt_of_le Nat.lt_log2_self (Nat.pow_le_pow_right (by norm_num) (by omega))
    exact_mod_cast this
  have hPos : (0 : ℚ) < 2 ^ p := by positivity
  have hSmall : (n : ℚ) / 10 ^ p < 2 ^ (-1075 : Int) := by
    calc (n : ℚ) / 10 ^ p ≤ n / (2 ^ p * 2 ^ p) := by gcongr
      _ < 2 ^ p / (2 ^ p * 2 ^ p) := by gcongr
      _ = 2 ^ (-(p : Int)) := by
          rw [zpow_neg, zpow_natCast]
          field_simp
      _ ≤ 2 ^ (-1075 : Int) := zpow_le_zpow_right₀ (by norm_num) (by omega)
  linarith

/-- Reading a decimal gives the double in whose interval the number lies. -/
theorem ofScientific_of_inInterval {M n p : Nat} {q : Int} (hDouble : IsDouble M q)
    (h : InInterval M q (n / 10 ^ p)) :
    Float.ofScientific n true p = hDouble.toFloat := by
  have hValue := h.pos hDouble
  have hn : 0 < n := by
    rcases Nat.eq_zero_or_pos n with hZero | hPos
    · rw [hZero] at hValue
      have : (0 : ℚ) < 2 ^ (-1075 : Int) := by positivity
      simp only [Nat.cast_zero, zero_div] at hValue
      linarith
    · exact hPos
  rw [Float.ofScientific]
  split
  next hFast =>
    -- both numbers are exact, so their quotient is rounded once
    have hSize : p < Float.exactlyRepresentablePowersOfTen.size :=
      Nat.lt_succ_of_le hFast.2
    obtain ⟨m₂, e₂, h₂, hPower, hTen⟩ := unpack_powerOfTen hSize
    have hNumber := unpack_toFloat hn hFast.1
    have hLog : n.log2 < 53 := (Nat.log2_lt hn.ne').mpr hFast.1
    simp only [↓reduceIte]
    change Float.ofModel (.pack (UnpackedFloat.div Format.binary64 n.toUInt64.toFloat.toModel.unpack
      Float.exactlyRepresentablePowersOfTen[p].toModel.unpack)) = _
    rw [hNumber, hPower, div_of_inInterval _ _ hDouble]
    · rfl
    · rw [quotient, value_ofNat hLog, hTen]
      exact h
  next hSlow =>
    have hPlaces := places_le_of_inInterval hDouble h
    change Float.ofModel (.pack (UnpackedFloat.ofScientific Format.binary64 n (Int.negOfNat p))) = _
    rw [Int.negOfNat_eq, Int.ofNat_eq_natCast, UnpackedFloat.ofScientific, dif_neg hn.ne',
      if_neg (by simp), if_neg (by simp; omega)]
    split
    next hWhole =>
      obtain rfl : p = 0 := by omega
      have hMul := toFloat_eq_of_mul_one hn hDouble (by simpa using h)
      exact congrArg (fun f => Float.ofModel (.pack f)) hMul
    next hPart =>
      have hDiv := div_of_inInterval hn (by positivity : 0 < 10 ^ p) hDouble
        (by simpa [quotient] using h : InInterval M q (quotient n 0 (10 ^ p) 0))
      simp only [neg_neg, Int.toNat_natCast]
      exact congrArg (fun f => Float.ofModel (.pack f)) hDiv

end Lox.Decimal
