import Lox.Proofs.Decimal.Scientific
import Lox.Value.Basic

/-! The text of a number reads back as that number. The text is a decimal in the interval of the
number, and reading gives every number of the interval back as that one. -/
namespace Lox.Decimal

open Float.Model Float.Model.UnpackedFloat

/-- The last digit of a number, after the digits of its tenth. -/
theorem ofNat_eq (n : Nat) :
    Text.ofNat n = (if n < 10 then [] else Text.ofNat (n / 10)) ++ [(48 + n % 10).toUInt8] := by
  have hDigit : ∀ d < 10, (Nat.digitChar d).toNat.toUInt8 = (48 + d).toUInt8 := by decide
  rw [Text.ofNat, Nat.toDigits_eq_if (by omega)]
  split
  next h => simp [hDigit n h, Nat.mod_eq_of_lt h]
  next h => simp [Text.ofNat, hDigit (n % 10) (Nat.mod_lt _ (by omega))]

theorem ofNat_ne_nil (n : Nat) : Text.ofNat n ≠ [] := by
  rw [ofNat_eq]
  simp

theorem isDigit_of_mem_ofNat {n : Nat} {b : UInt8} (h : b ∈ Text.ofNat n) : isDigit b = true := by
  have hDigit : ∀ d < 10, isDigit (48 + d).toUInt8 = true := by decide
  induction n using Nat.strongRecOn with
  | ind n ih =>
      rw [ofNat_eq, List.mem_append, List.mem_singleton] at h
      rcases h with h | rfl
      · split at h
        next => simp at h
        next hn => exact ih (n / 10) (by omega) h
      · exact hDigit (n % 10) (Nat.mod_lt _ (by omega))

/-- Digits that follow shift those before them. -/
theorem digitsValue_append (s t : Text) :
    digitsValue (s ++ t) = digitsValue s * 10 ^ t.length + digitsValue t := by
  have hFold : ∀ (t : Text) (n : Nat), t.foldl (fun n b => n * 10 + (b.toNat - 48)) n =
      n * 10 ^ t.length + digitsValue t := by
    intro t
    induction t with
    | nil => simp [digitsValue]
    | cons b t ih =>
        intro n
        rw [digitsValue, List.foldl_cons, List.foldl_cons, ih, ih (0 * 10 + _), List.length_cons]
        ring
  rw [digitsValue, List.foldl_append, hFold]
  rfl

theorem digitsValue_zeros (n : Nat) : digitsValue (List.replicate n 48) = 0 := by
  induction n with
  | zero => rfl
  | succ n ih => rw [List.replicate_succ', digitsValue_append, ih]; rfl

/-- The decimal digits of a number have its value. -/
theorem digitsValue_ofNat (n : Nat) : digitsValue (Text.ofNat n) = n := by
  have hDigit : ∀ d < 10, digitsValue [(48 + d).toUInt8] = d := by decide
  induction n using Nat.strongRecOn with
  | ind n ih =>
      rw [ofNat_eq, digitsValue_append, hDigit _ (Nat.mod_lt _ (by omega))]
      split
      next h =>
        simp only [digitsValue, List.foldl_nil]
        omega
      next h =>
        rw [ih (n / 10) (by omega)]
        simp only [List.length_singleton]
        omega

/-- A row of at least one digit. -/
def IsDigits (t : Text) : Prop := t ≠ [] ∧ ∀ b ∈ t, isDigit b = true

/-- Digits, or digits on both sides of a point. -/
inductive IsNumeral : Text → Prop where
  | whole {t : Text} (h : IsDigits t) : IsNumeral t
  | point {s t : Text} (hWhole : IsDigits s) (hFraction : IsDigits t) : IsNumeral (s ++ 46 :: t)

theorem isDigits_ofNat (n : Nat) : IsDigits (Text.ofNat n) :=
  ⟨ofNat_ne_nil n, fun _ => isDigit_of_mem_ofNat⟩

theorem IsDigits.ne_point {t : Text} (h : IsDigits t) : ∀ b ∈ t, (b != 46) = true := by
  intro b hb
  have hDigit := h.2 b hb
  by_contra hPoint
  have : b = 46 := by simpa using hPoint
  subst this
  exact absurd hDigit (by decide)

/-- A numeral without a point is read as its digits. -/
theorem ofNumeral_whole {t : Text} (h : IsDigits t) :
    Value.ofNumeral t = .number (Float.ofScientific (digitsValue t) true 0) := by
  have hTake : t.takeWhile (· != 46) = t := List.takeWhile_eq_self_iff.mpr h.ne_point
  have hDrop : t.dropWhile (· != 46) = [] := List.dropWhile_eq_nil_iff.mpr h.ne_point
  simp [Value.ofNumeral, hTake, hDrop]

/-- A numeral with a point is read as all its digits, scaled down by those behind the point. -/
theorem ofNumeral_point {s : Text} (h : IsDigits s) (t : Text) :
    Value.ofNumeral (s ++ 46 :: t) =
      .number (Float.ofScientific (digitsValue (s ++ t)) true t.length) := by
  have hTake : (s ++ 46 :: t).takeWhile (· != 46) = s := by
    rw [List.takeWhile_append_of_pos h.ne_point, List.takeWhile_cons_of_neg (by decide),
      List.append_nil]
  have hDrop : (s ++ 46 :: t).dropWhile (· != 46) = 46 :: t := by
    rw [List.dropWhile_append_of_pos h.ne_point, List.dropWhile_cons_of_neg (by decide)]
  simp only [Value.ofNumeral, hTake, hDrop, List.drop_succ_cons, List.drop_zero]

def Digits.value (d : Digits) : ℚ := d.n * 10 ^ d.k

/-- The text `t` is a numeral, and the number it spells exactly is `v`. -/
structure Denotes (t : Text) (v : ℚ) : Prop where
  isNumeral : IsNumeral t
  reads : ∃ n p : Nat, Value.ofNumeral t = .number (Float.ofScientific n true p) ∧
    (n : ℚ) / 10 ^ p = v

/-- Digits spell their value. -/
theorem denotes_whole {t : Text} (h : IsDigits t) : Denotes t (digitsValue t) :=
  ⟨.whole h, digitsValue t, 0, ofNumeral_whole h, by simp⟩

/-- Digits on both sides of a point spell a fraction. -/
theorem denotes_point {s t : Text} (hWhole : IsDigits s) (hFraction : IsDigits t) :
    Denotes (s ++ 46 :: t) (digitsValue (s ++ t) / 10 ^ t.length) :=
  ⟨.point hWhole hFraction, _, _, ofNumeral_point hWhole t, rfl⟩

theorem isDigits_zeros_append {t : Text} (h : IsDigits t) (n : Nat) :
    IsDigits (List.replicate n 48 ++ t) := by
  refine ⟨by simp [h.1], fun b hb => ?_⟩
  rcases List.mem_append.mp hb with hZero | hDigit
  · rw [List.eq_of_mem_replicate hZero]
    decide
  · exact h.2 b hDigit

theorem isDigits_append_zeros {t : Text} (h : IsDigits t) (n : Nat) :
    IsDigits (t ++ List.replicate n 48) := by
  refine ⟨by simp [h.1], fun b hb => ?_⟩
  rcases List.mem_append.mp hb with hDigit | hZero
  · exact h.2 b hDigit
  · rw [List.eq_of_mem_replicate hZero]
    decide

/-- A row of digits with its last `places` ones behind a point, which it may have to be filled up
for with zeros. -/
theorem denotes_places {row : Text} {places : Nat} (h : IsDigits row) (hPlaces : 0 < places) :
    Denotes
      (if places < row.length then
        Text.concat [row.take (row.length - places), ".", row.drop (row.length - places)]
      else Text.concat ["0.", List.replicate (places - row.length) 48, row])
      (digitsValue row / 10 ^ places) := by
  split
  next hLess =>
    have hText : Text.ofString "." = [46] := by decide
    have hWhole : IsDigits (row.take (row.length - places)) := by
      refine ⟨?_, fun b hb => h.2 b (List.mem_of_mem_take hb)⟩
      rw [← List.length_pos_iff_ne_nil, List.length_take]
      omega
    have hFraction : IsDigits (row.drop (row.length - places)) := by
      refine ⟨?_, fun b hb => h.2 b (List.mem_of_mem_drop hb)⟩
      rw [← List.length_pos_iff_ne_nil, List.length_drop]
      omega
    have hDenotes := denotes_point hWhole hFraction
    rw [List.take_append_drop, List.length_drop,
      show row.length - (row.length - places) = places by omega] at hDenotes
    simpa [Text.concat, hText] using hDenotes
  next hMore =>
    have hText : Text.ofString "0." = [48, 46] := by decide
    have hDenotes := denotes_point (s := [48]) ⟨by simp, by simp; decide⟩
      (isDigits_zeros_append h (places - row.length))
    rw [digitsValue_append, digitsValue_append, digitsValue_zeros, List.length_append,
      List.length_replicate, show places - row.length + row.length = places by omega] at hDenotes
    simpa [Text.concat, hText, digitsValue] using hDenotes

/-- Positional notation spells the number it is given. -/
theorem denotes_positional (d : Digits) : Denotes (positional d) d.value := by
  obtain ⟨n, k⟩ := d
  have hDigits := isDigits_ofNat n
  simp only [positional, Digits.value]
  split
  next hk =>
    have hPow : (10 : ℚ) ^ k = 10 ^ k.toNat := by
      rw [← zpow_natCast, Int.toNat_of_nonneg hk]
    split
    next hn =>
      have hText : Text.ofString "0" = [48] := by decide
      rw [hText, hn]
      simpa [digitsValue] using @denotes_whole [48] ⟨by simp, by simp; decide⟩
    next hn =>
      have h := denotes_whole (isDigits_append_zeros hDigits k.toNat)
      rw [digitsValue_append, digitsValue_ofNat, digitsValue_zeros, List.length_replicate] at h
      simpa [hPow] using h
  next hk =>
    have hPow : (10 : ℚ) ^ k = (10 ^ (-k).toNat)⁻¹ := by
      rw [← zpow_natCast, Int.toNat_of_nonneg (by omega), zpow_neg, inv_inv]
    have h := @denotes_places _ (-k).toNat hDigits (by omega)
    rw [digitsValue_ofNat] at h
    rwa [hPow, ← div_eq_mul_inv]

/-- A power of any base as a quotient of natural numbers. -/
theorem scale_spec {base : Nat} (hBase : 0 < base) (k : Int) :
    let scale : Nat × Nat := if 0 ≤ k then (base ^ k.toNat, 1) else (1, base ^ (-k).toNat)
    0 < scale.2 ∧ (scale.1 : ℚ) = base ^ k * scale.2 := by
  have hCast : (0 : ℚ) < base := by exact_mod_cast hBase
  dsimp only
  split
  next hk =>
    refine ⟨Nat.one_pos, ?_⟩
    rw [Nat.cast_one, mul_one, Nat.cast_pow, ← zpow_natCast, Int.toNat_of_nonneg hk]
  next hk =>
    refine ⟨by positivity, ?_⟩
    rw [Nat.cast_pow, ← zpow_natCast, Int.toNat_of_nonneg (by omega), zpow_neg,
      mul_inv_cancel₀ (by positivity), Nat.cast_one]

/-- A comparison of products of fractions, made without division. -/
theorem cross_le_iff {s t : Nat × Nat} {x y : ℚ} (hs : 0 < s.2 ∧ (s.1 : ℚ) = x * s.2)
    (ht : 0 < t.2 ∧ (t.1 : ℚ) = y * t.2) (a b : Nat) :
    a * s.1 * t.2 ≤ b * t.1 * s.2 ↔ (a : ℚ) * x ≤ b * y := by
  have hPos : (0 : ℚ) < s.2 * t.2 := by
    have h₁ : (0 : ℚ) < s.2 := by exact_mod_cast hs.1
    have h₂ : (0 : ℚ) < t.2 := by exact_mod_cast ht.1
    positivity
  rw [← Nat.cast_le (α := ℚ)]
  push_cast
  rw [hs.2, ht.2, show a * (x * s.2) * t.2 = (a * x) * (s.2 * t.2) by ring,
    show b * (y * t.2) * s.2 = (b * y) * (s.2 * t.2) by ring, mul_le_mul_iff_left₀ hPos]

/-- Fractions are compared by multiplying crosswise. -/
theorem cross_lt_iff {s t : Nat × Nat} {x y : ℚ} (hs : 0 < s.2 ∧ (s.1 : ℚ) = x * s.2)
    (ht : 0 < t.2 ∧ (t.1 : ℚ) = y * t.2) (a b : Nat) :
    a * s.1 * t.2 < b * t.1 * s.2 ↔ (a : ℚ) * x < b * y := by
  rw [← not_le, ← not_le, cross_le_iff ht hs]

/-- The test in natural numbers is membership in the interval. -/
theorem inInterval_of_readsBack {d : Dyadic} {n : Nat} {k : Int} (hm : 0 < d.m)
    (h : d.readsBack n k = true) : InInterval d.m d.q (n * 10 ^ k) := by
  have hScale := @scale_spec 10 (by norm_num) k
  have hUnit := @scale_spec 2 (by norm_num) (d.q - 2)
  have hLess : (2 ≤ d.q) = (0 ≤ d.q - 2) := by simp
  rw [Dyadic.readsBack] at h
  simp only [Nat.pow_eq, hLess, show 2 - d.q = -(d.q - 2) by ring] at h
  generalize (if 0 ≤ k then (10 ^ k.toNat, 1) else (1, 10 ^ (-k).toNat) : Nat × Nat) = scale
    at hScale h
  generalize (if 0 ≤ d.q - 2 then (2 ^ (d.q - 2).toNat, 1)
    else (1, 2 ^ (-(d.q - 2)).toNat) : Nat × Nat) = unit at hUnit h
  -- bounds are compared in quarters of the last place, the distance of a bound that is narrow below
  have hQuarter : (2 : ℚ) ^ (d.q - 2) = 2 ^ d.q / 4 := by
    rw [zpow_sub₀ (by norm_num)]
    norm_num
  have hPos : (0 : ℚ) < 2 ^ d.q := by positivity
  push_cast at hScale hUnit
  simp only [cross_le_iff hUnit hScale, cross_le_iff hScale hUnit, cross_lt_iff hUnit hScale,
    cross_lt_iff hScale hUnit, hQuarter] at h
  have hBelow : ((4 * d.m - if d.narrowBelow then 1 else 2 : Nat) : ℚ) =
      4 * d.m - if d.narrowBelow then 1 else 2 := by
    rw [Nat.cast_sub (by split <;> omega)]
    push_cast
    rfl
  rw [hBelow] at h
  push_cast at h
  have hNarrow : d.narrowBelow = true ↔ d.m = 2 ^ 52 ∧ -1074 < d.q := by
    simp [Dyadic.narrowBelow]
  split at h
  next hEven =>
    simp only [Bool.and_eq_true, decide_eq_true_eq] at h
    obtain ⟨hLow, hHigh⟩ := h
    constructor
    · split at hLow <;> linarith
    · linarith
    · intro hOdd
      simp [hOdd] at hEven
    · intro hm' hq
      rw [if_pos (hNarrow.mpr ⟨hm', hq⟩)] at hLow
      linarith
  next hOdd =>
    simp only [Bool.and_eq_true, decide_eq_true_eq] at h
    -- the mantissa of a power of two is even
    have hWide : ¬ d.narrowBelow = true := by
      rw [hNarrow]
      rintro ⟨hm', _⟩
      simp [hm'] at hOdd
    rw [if_neg hWide] at h
    constructor
    · linarith [h.1]
    · linarith [h.2]
    · intro _
      constructor
      · linarith [h.1]
      · linarith [h.2]
    · intro hm' hq
      exact absurd (hNarrow.mpr ⟨hm', hq⟩) hWide

/-- A candidate on a grid of digits has been tried. -/
theorem readsBack_of_onGrid {d : Dyadic} {k : Int} {n : Nat} (h : onGrid d k = some n) :
    d.readsBack n k = true := by
  rw [onGrid] at h
  simp only [Nat.pow_eq] at h
  generalize (if 0 ≤ k then (1, 10 ^ k.toNat) else (10 ^ (-k).toNat, 1) : Nat × Nat) = scale at h
  split at h
  next => cases h
  next hLow _ =>
    cases h
    exact hLow
  next hHigh =>
    cases h
    exact hHigh
  next hLow hHigh =>
    split at h
    · cases h
      exact hLow
    · split at h
      · cases h
        exact hHigh
      · split at h <;> cases h
        · exact hLow
        · exact hHigh

/-- What the search for the shortest digits finds reads back as the number. -/
theorem readsBack_of_searchGrids {d : Dyadic} {tries : Nat} {k : Int} {found : Digits}
    (h : searchGrids d tries k = some found) : d.readsBack found.n found.k = true := by
  induction tries generalizing k with
  | zero => cases h
  | succ tries ih =>
      rw [searchGrids] at h
      split at h
      next n hGrid =>
        cases h
        exact readsBack_of_onGrid hGrid
      next => exact ih h

/-- Zeros at the end move into the exponent. -/
theorem value_strip (fuel : Nat) (d : Digits) : (d.strip fuel).value = d.value := by
  induction fuel generalizing d with
  | zero => rfl
  | succ fuel ih =>
      rw [Digits.strip]
      split
      next h =>
        have hTen : (d.n : ℚ) = (d.n / 10 : Nat) * 10 := by
          exact_mod_cast (Nat.div_mul_cancel (Nat.dvd_of_mod_eq_zero h.2)).symm
        rw [ih, Digits.value, Digits.value, zpow_add_one₀ (by norm_num), hTen]
        ring
      next => rfl

/-- The shortest decimal lies in the interval of its number. -/
theorem inInterval_shortest {d : Dyadic} (hm : 0 < d.m) :
    InInterval d.m d.q (shortest d).value := by
  simp only [shortest, Nat.pow_eq]
  split
  next found hFound =>
    rw [value_strip]
    exact inInterval_of_readsBack hm (readsBack_of_searchGrids hFound)
  next =>
    rw [value_strip]
    convert inInterval_self d.m d.q using 1
    split
    next hq =>
      rw [Digits.value]
      push_cast
      rw [← zpow_natCast, Int.toNat_of_nonneg hq, mul_one]
    next hq =>
      rw [Digits.value]
      push_cast
      rw [← zpow_natCast, Int.toNat_of_nonneg (by omega), show (10 : ℚ) = 2 * 5 by norm_num,
        mul_zpow, zpow_neg]
      field_simp

/-- The only double without a mantissa and without a minus sign is zero. -/
theorem eq_zero_of_mantissa {x : Float} (hm : (Dyadic.ofFloat x).m = 0)
    (hSign : isNegative x = false) : x.toBits.toNat = 0 := by
  have hPositive := div_two_pow_eq_zero_of_not_negative hSign
  rw [Dyadic.ofFloat_eq] at hm
  generalize x.toBits.toNat = bits at hPositive hm ⊢
  split at hm
  · simp only at hm
    omega
  · simp only at hm
    omega

/-- The text of a finite number that is not negative is a numeral that stands for the number. -/
theorem ofNumeral_numberText {x : Float} (hNaN : x.isNaN = false) (hInf : x.isInf = false)
    (hSign : isNegative x = false) :
    IsNumeral (Value.numberText x) ∧ Value.ofNumeral (Value.numberText x) = .number x := by
  have hNoSign : Text.ofString "" = [] := by decide
  simp only [Value.numberText, hNaN, hInf, hSign, Bool.false_eq_true, ↓reduceIte]
  split
  next hm =>
    have hText : Text.concat [Text.ofString "", Text.ofString "0"] = [48] := by decide
    have hZero : (Float.ofScientific 0 true 0).toBits.toNat = 0 := by decide +kernel
    have hDigits : IsDigits [48] := ⟨by simp, by simp; decide⟩
    rw [hText, ofNumeral_whole hDigits]
    refine ⟨.whole hDigits, congrArg Value.number (eq_of_toNat_toBits ?_)⟩
    rw [eq_zero_of_mantissa hm hSign]
    exact hZero
  next hm =>
    have hDouble := isDouble_ofFloat (exponent_ne_of_finite hNaN hInf) hm
    obtain ⟨hNumeral, n, p, hReads, hValue⟩ := denotes_positional (shortest (Dyadic.ofFloat x))
    rw [hNoSign, List.nil_append]
    refine ⟨hNumeral, ?_⟩
    have hInterval := inInterval_shortest hDouble.pos
    rw [← hValue] at hInterval
    rw [hReads, ofScientific_of_inInterval hDouble hInterval, ← eq_toFloat_of_ofFloat hDouble hSign]

def IsNonnegative : UnpackedFloat → Prop
  | .zero .positive | .infinity .positive | .finite .positive .. => True
  | _ => False

/-- Rounding does not bring in a minus sign. -/
theorem isNonnegative_roundWithAccuracy (m : Nat) (e : Int) (accuracy : Accuracy) :
    IsNonnegative (roundWithAccuracy Format.binary64 .positive m e accuracy) := by
  simp only [roundWithAccuracy]
  split <;> trivial

/-- A numeral is read as a number without a minus sign. -/
theorem isNonnegative_ofScientific (m : Nat) (e : Int) :
    IsNonnegative (UnpackedFloat.ofScientific Format.binary64 m e) := by
  rw [UnpackedFloat.ofScientific]
  split
  · trivial
  · split
    · trivial
    · split
      · trivial
      · split <;> exact isNonnegative_roundWithAccuracy ..

/-- What packing gives: no sign, and a fraction only below the largest exponent. -/
theorem pack_eq_of_isNonnegative {f : UnpackedFloat} (h : IsNonnegative f) :
    ∃ exponent mantissa, UnpackedFloat.pack Format.binary64 f =
      packComponents Format.binary64 .positive exponent mantissa ∧
        (exponent = -1#_ → mantissa = 0#_) := by
  fun_cases UnpackedFloat.pack Format.binary64 f with
  | case1 => exact h.elim
  | case2 sign =>
      cases sign with
      | negative => exact h.elim
      | positive => exact ⟨_, _, rfl, fun _ => rfl⟩
  | case3 sign =>
      cases sign with
      | negative => exact h.elim
      | positive => exact ⟨_, _, rfl, fun _ => rfl⟩
  | case4 sign m e hm biased hLarge =>
      cases sign with
      | negative => exact h.elim
      | positive => exact ⟨_, _, rfl, fun _ => rfl⟩
  | case5 sign m e hm bits biased hSmall hFull =>
      cases sign with
      | negative => exact h.elim
      | positive =>
          refine ⟨_, _, rfl, fun hOnes => ?_⟩
          have hNat := congrArg BitVec.toNat hOnes
          simp only [BitVec.toNat_ofNat] at hNat
          have hLess : ¬ 2 ^ 11 ≤ biased + 1 := hSmall
          have hMod : biased % 2 ^ 11 = 2047 := hNat
          omega
  | case6 sign m e hm bits biased hSmall hFull =>
      cases sign with
      | negative => exact h.elim
      | positive => exact ⟨_, _, rfl, fun hOnes => absurd hOnes (by decide)⟩

theorem unpack_isNaN {b : BitVec 64} : (unpack Format.binary64 b).isNaN = true →
    @unpackExponent Format.binary64 b = -1#_ ∧ @unpackMantissa Format.binary64 b ≠ 0#_ := by
  fun_cases unpack Format.binary64 b with
  | case2 mantissa exponent hExponent hMantissa => exact fun _ => ⟨hExponent, hMantissa⟩
  | _ => exact fun h => nomatch h

/-- A packed number without a minus sign is a number and is not negative. -/
theorem sign_of_pack {f : UnpackedFloat} (h : IsNonnegative f) :
    (Float.ofModel (.pack f)).isNaN = false ∧ isNegative (Float.ofModel (.pack f)) = false := by
  obtain ⟨exponent, mantissa, hPack, hOnes⟩ := pack_eq_of_isNonnegative h
  have hBits : (Float.ofModel (.pack f)).toBits =
      UInt64.ofBitVec (packComponents Format.binary64 .positive exponent mantissa) :=
    congrArg UInt64.ofBitVec hPack
  have hUnpack : (Float.ofModel (.pack f)).toModel.unpack =
      unpack Format.binary64 (packComponents Format.binary64 .positive exponent mantissa) :=
    congrArg (unpack Format.binary64) hPack
  refine ⟨?_, ?_⟩
  · by_contra hNaN
    have hNaN' : (Float.ofModel (.pack f)).toModel.unpack.isNaN = true := eq_true_of_ne_false hNaN
    rw [hUnpack] at hNaN'
    obtain ⟨hExponent, hMantissa⟩ := unpack_isNaN hNaN'
    rw [unpackExponent_packComponents] at hExponent
    rw [unpackMantissa_packComponents] at hMantissa
    exact hMantissa (hOnes hExponent)
  · have hNat := toNat_packComponents .positive exponent mantissa
    have hExponent : exponent.toNat < 2 ^ 11 := exponent.isLt
    have hMantissa : mantissa.toNat < 2 ^ 52 := mantissa.isLt
    have hZero : Sign.positive.toBitVec.toNat = 0 := rfl
    rw [isNegative_eq, hBits, UInt64.toNat_ofBitVec, hNat, hZero]
    simp only [beq_eq_false_iff_ne]
    omega

/-- Infinity does not count as missing a value. -/
theorem isNaN_of_isInf {x : Float} (h : x.isInf = true) : x.isNaN = false := by
  have hInf : x.toModel.unpack.isInf = true := h
  change x.toModel.unpack.isNaN = false
  cases hUnpack : x.toModel.unpack with
  | notANumber =>
      rw [hUnpack] at hInf
      cases hInf
  | _ => rfl

/-- There is one infinite number that is not negative: what one divided by zero gives. -/
theorem eq_one_div_zero {x : Float} (hInf : x.isInf = true) (hSign : isNegative x = false) :
    x = 1 / 0 := by
  have hUnpack : (unpack Format.binary64 x.toModel.toBits.toBitVec).isInf = true := hInf
  have hPositive := div_two_pow_eq_zero_of_not_negative hSign
  have hFields : @unpackExponent Format.binary64 x.toModel.toBits.toBitVec = -1#_ ∧
      @unpackMantissa Format.binary64 x.toModel.toBits.toBitVec = 0#_ := by
    revert hUnpack
    fun_cases unpack Format.binary64 x.toModel.toBits.toBitVec with
    | case1 mantissa exponent _ _ hExponent hMantissa => exact fun _ => ⟨hExponent, hMantissa⟩
    | _ => exact fun h => nomatch h
  have hExponent := (unpackExponent_eq_allOnes_iff _).mp hFields.1
  have hMantissa := (unpackMantissa_eq_zero_iff _).mp hFields.2
  have hBits : x.toModel.toBits.toBitVec.toNat = x.toBits.toNat := rfl
  have hInfinity : (1 / 0 : Float).toBits.toNat = 2047 * 2 ^ 52 := by decide +kernel
  apply eq_of_toNat_toBits
  omega

/-- What a numeral stands for is a number and is not negative. -/
theorem ofScientific_sign (n p : Nat) :
    (Float.ofScientific n true p).isNaN = false ∧
      isNegative (Float.ofScientific n true p) = false := by
  rw [Float.ofScientific]
  split
  next hFast =>
    have hSize : p < Float.exactlyRepresentablePowersOfTen.size := Nat.lt_succ_of_le hFast.2
    obtain ⟨m₂, e₂, h₂, hPower, _⟩ := unpack_powerOfTen hSize
    refine sign_of_pack (f := UnpackedFloat.div Format.binary64 n.toUInt64.toFloat.toModel.unpack
      Float.exactlyRepresentablePowersOfTen[p].toModel.unpack) ?_
    rw [hPower]
    rcases Nat.eq_zero_or_pos n with rfl | hn
    · have hZero : (0 : Nat).toUInt64.toFloat.toModel.unpack = .zero .positive := rfl
      rw [hZero]
      trivial
    · rw [unpack_toFloat hn hFast.1]
      exact isNonnegative_roundWithAccuracy ..
  next => exact sign_of_pack (isNonnegative_ofScientific _ _)

end Lox.Decimal
