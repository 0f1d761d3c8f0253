import Mathlib

/-! Rounding to a double. A double owns an interval of rational numbers, those at most halfway to its
neighbours, and rounding any number of the interval gives that double. -/
namespace Lox.Decimal

open Float.Model Float.Model.UnpackedFloat

/-- The number `v` begins with the mantissa of `em` at the exponent `e`, and the remaining two bits
of `em` say where between this mantissa and the next one it lies. -/
def Truncates (em : ExtendedMantissa) (e : Int) (v : ℚ) : Prop :=
  match em with
  | ⟨m, false, false⟩ => v = m * 2 ^ e
  | ⟨m, false, true⟩ => m * 2 ^ e < v ∧ v < (m + 1 / 2) * 2 ^ e
  | ⟨m, true, false⟩ => v = (m + 1 / 2) * 2 ^ e
  | ⟨m, true, true⟩ => (m + 1 / 2) * 2 ^ e < v ∧ v < (m + 1) * 2 ^ e

/-- Truncation only takes away. -/
theorem Truncates.le {em : ExtendedMantissa} {e : Int} {v : ℚ} (h : Truncates em e v) :
    em.mantissa * 2 ^ e ≤ v := by
  have hPos : (0 : ℚ) < 2 ^ e := by positivity
  obtain ⟨m, round, sticky⟩ := em
  cases round <;> cases sticky <;> simp only [Truncates] at h ⊢ <;> nlinarith

/-- Truncation takes away less than one unit of the mantissa. -/
theorem Truncates.lt {em : ExtendedMantissa} {e : Int} {v : ℚ} (h : Truncates em e v) :
    v < (em.mantissa + 1) * 2 ^ e := by
  have hPos : (0 : ℚ) < 2 ^ e := by positivity
  obtain ⟨m, round, sticky⟩ := em
  cases round <;> cases sticky <;> simp only [Truncates] at h ⊢ <;> nlinarith

/-- Dropping the last bit of the mantissa keeps track of the number. -/
theorem Truncates.shiftRightOne {em : ExtendedMantissa} {e : Int} {v : ℚ}
    (h : Truncates em e v) : Truncates em.shiftRightOne (e + 1) v := by
  have hPos : (0 : ℚ) < 2 ^ e := by positivity
  have hPow : (2 : ℚ) ^ (e + 1) = 2 * 2 ^ e := by
    rw [zpow_add_one₀ (by norm_num)]
    ring
  obtain ⟨m, round, sticky⟩ := em
  obtain ⟨half, hEven | hOdd⟩ := Nat.even_or_odd' m
  · have hCast : (m : ℚ) = 2 * (half : ℚ) := by exact_mod_cast hEven
    have hDiv : m / 2 = half := by omega
    have hMod : (m % 2 != 0) = false := by simp [hEven]
    cases round <;> cases sticky <;>
      simp only [ExtendedMantissa.shiftRightOne, hDiv, hMod, Bool.or_false, Bool.or_true,
        Truncates, hPow, hCast] at h ⊢
    · linarith
    · constructor <;> nlinarith [h.1, h.2]
    · constructor <;> nlinarith
    · constructor <;> nlinarith [h.1, h.2]
  · have hCast : (m : ℚ) = 2 * (half : ℚ) + 1 := by exact_mod_cast hOdd
    have hDiv : m / 2 = half := by omega
    have hMod : (m % 2 != 0) = true := by simp [hOdd]
    cases round <;> cases sticky <;>
      simp only [ExtendedMantissa.shiftRightOne, hDiv, hMod, Bool.or_false, Bool.or_true,
        Truncates, hPow, hCast] at h ⊢
    · linarith
    · constructor <;> nlinarith [h.1, h.2]
    · constructor <;> nlinarith
    · constructor <;> nlinarith [h.1, h.2]

/-- What is shifted out of the mantissa goes into the remaining bits. -/
theorem Truncates.shiftRight {em : ExtendedMantissa} {e : Int} {v : ℚ} (h : Truncates em e v)
    (k : Nat) : Truncates (em >>> k) (e + k) v := by
  induction k with
  | zero => simpa [HShiftRight.hShiftRight, Nat.repeat] using h
  | succ k ih =>
      have hStep := ih.shiftRightOne
      rw [add_assoc] at hStep
      exact_mod_cast hStep

/-- Rounding to the nearest mantissa, and to the even one halfway. -/
theorem Truncates.roundedMantissa {em : ExtendedMantissa} {e : Int} {v : ℚ}
    (h : Truncates em e v) {M : Nat} (hLow : (M - 1 / 2) * 2 ^ e ≤ v)
    (hHigh : v ≤ (M + 1 / 2) * 2 ^ e)
    (hOdd : M % 2 = 1 → (M - 1 / 2) * 2 ^ e < v ∧ v < (M + 1 / 2) * 2 ^ e) :
    em.roundedMantissa = M := by
  have hPos : (0 : ℚ) < 2 ^ e := by positivity
  -- two mantissas that differ by one are an integer apart, so strict bounds pin `M` down
  have hBelow : ∀ n : Nat, v < (n + 1 / 2) * 2 ^ e → M ≤ n := by
    intro n hn
    have : (M : ℚ) < n + 1 := by
      have := lt_of_le_of_lt hLow hn
      have := (mul_lt_mul_iff_left₀ hPos).mp this
      linarith
    have : M < n + 1 := by exact_mod_cast this
    omega
  have hAbove : ∀ n : Nat, (n - 1 / 2) * 2 ^ e < v → n ≤ M := by
    intro n hn
    have : (n : ℚ) < M + 1 := by
      have := lt_of_lt_of_le hn hHigh
      have := (mul_lt_mul_iff_left₀ hPos).mp this
      linarith
    have : n < M + 1 := by exact_mod_cast this
    omega
  obtain ⟨m, round, sticky⟩ := em
  cases round <;> cases sticky <;>
    simp only [Truncates, ExtendedMantissa.roundedMantissa, ExtendedMantissa.accuracy,
      Accuracy.roundToNearestEven] at h ⊢
  · have := hBelow m (by nlinarith)
    have := hAbove m (by nlinarith)
    omega
  · have := hBelow m h.2
    have := hAbove m (by nlinarith [h.1])
    omega
  · have hLe := hBelow (m + 1) (by push_cast; nlinarith)
    have hGe := hAbove m (by nlinarith)
    have hEven : M % 2 = 0 := by
      by_contra hNot
      obtain ⟨hLow', hHigh'⟩ := hOdd (by omega)
      rw [h] at hLow' hHigh'
      have h₁ := (mul_lt_mul_iff_left₀ hPos).mp hLow'
      have h₂ := (mul_lt_mul_iff_left₀ hPos).mp hHigh'
      have h₃ : (M : ℚ) < m + 1 := by linarith
      have h₄ : (m : ℚ) < M := by linarith
      have h₅ : M < m + 1 := by exact_mod_cast h₃
      have h₆ : m < M := by exact_mod_cast h₄
      omega
    omega
  · have := hBelow (m + 1) (by push_cast; nlinarith [h.2])
    have := hAbove (m + 1) (by push_cast; nlinarith [h.1])
    omega

/-- The mantissa and exponent of a double that is neither zero nor infinite, in the only form with
either a full mantissa or the least exponent. -/
structure IsDouble (M : Nat) (q : Int) : Prop where
  pos : 0 < M
  mantissa_lt : M < 2 ^ 53
  le_exponent : -1074 ≤ q
  exponent_le : q ≤ 971
  full : 2 ^ 52 ≤ M ∨ q = -1074

/-- The number lies in the interval of the double: at most halfway to the neighbours, and halfway
only if the mantissa is even. Below a power of two the lower neighbour is closer. -/
structure InInterval (M : Nat) (q : Int) (v : ℚ) : Prop where
  low : (M - 1 / 2) * 2 ^ q ≤ v
  high : v ≤ (M + 1 / 2) * 2 ^ q
  odd : M % 2 = 1 → (M - 1 / 2) * 2 ^ q < v ∧ v < (M + 1 / 2) * 2 ^ q
  narrow : M = 2 ^ 52 → -1074 < q → (M - 1 / 4) * 2 ^ q ≤ v

theorem IsDouble.cast_le {M : Nat} {q : Int} (h : IsDouble M q) : (M : ℚ) + 1 ≤ 2 ^ 53 := by
  have := h.mantissa_lt
  exact_mod_cast this

/-- Numbers in the interval of a double are not below half of the least double. -/
theorem InInterval.pos {M : Nat} {q : Int} {v : ℚ} (hDouble : IsDouble M q)
    (h : InInterval M q v) : 2 ^ (-1075 : Int) ≤ v := by
  have hM : (1 : ℚ) ≤ M := by exact_mod_cast hDouble.pos
  have hPow : (2 : ℚ) ^ (-1074 : Int) ≤ 2 ^ q := zpow_le_zpow_right₀ (by norm_num) hDouble.le_exponent
  have hHalf : (2 : ℚ) ^ (-1075 : Int) = 1 / 2 * 2 ^ (-1074 : Int) := by
    rw [show (-1074 : Int) = -1075 + 1 by norm_num, zpow_add_one₀ (by norm_num)]
    ring
  have hPos : (0 : ℚ) < 2 ^ q := by positivity
  have := h.low
  nlinarith

/-- The exact value of a double lies in its interval. -/
theorem inInterval_self (M : Nat) (q : Int) : InInterval M q (M * 2 ^ q) := by
  have hPos : (0 : ℚ) < 2 ^ q := by positivity
  constructor
  · nlinarith
  · nlinarith
  · intro _
    constructor <;> nlinarith
  · intro _ _
    nlinarith

/-- A double has 53 bits, fewer only at the least exponent. -/
theorem targetExponent_eq (e : Int) :
    Format.binary64.targetExponent e = max (e - 53) (-1074) := by
  simp [Format.targetExponent, Format.mantissaBits, Format.minExponent]

/-- The power of two below a number. -/
theorem two_zpow_le_of_log2 {m : Nat} (hm : m ≠ 0) (e : Int) :
    (2 : ℚ) ^ ((m.log2 : Int) + e) ≤ m * 2 ^ e := by
  have hPos : (0 : ℚ) < 2 ^ e := by positivity
  have hLog : (2 : ℚ) ^ m.log2 ≤ m := by exact_mod_cast Nat.log2_self_le hm
  rw [zpow_add₀ (by norm_num), zpow_natCast]
  exact mul_le_mul_of_nonneg_right hLog hPos.le

/-- The power of two above a number. -/
theorem lt_two_zpow_of_log2 (m : Nat) (e : Int) :
    ((m : ℚ) + 1) * 2 ^ e ≤ 2 ^ ((m.log2 : Int) + 1 + e) := by
  have hPos : (0 : ℚ) < 2 ^ e := by positivity
  have hLog : (m : ℚ) + 1 ≤ 2 ^ (m.log2 + 1) := by
    have : m + 1 ≤ 2 ^ (m.log2 + 1) := @Nat.lt_log2_self m
    exact_mod_cast this
  rw [zpow_add₀ (by norm_num)]
  have hCast : (2 : ℚ) ^ ((m.log2 : Int) + 1) = 2 ^ (m.log2 + 1) := by
    rw [← zpow_natCast]
    push_cast
    rfl
  rw [hCast]
  exact mul_le_mul_of_nonneg_right hLog hPos.le

/-- The exponent that rounding settles on: the mantissa has at most 53 bits there, and has all of
them unless the exponent is the least one. -/
theorem targetExponent_bounds {em : ExtendedMantissa} {e t : Int} {v : ℚ} (h : Truncates em e v)
    (ht : t = Format.binary64.targetExponent (totalExponent em.mantissa e)) (hLe : e ≤ t) :
    -1074 ≤ t ∧ v < 2 ^ (53 + t) ∧ (t = -1074 ∨ 2 ^ (52 + t) ≤ v) := by
  rw [targetExponent_eq, totalExponent] at ht
  refine ⟨by omega, ?_, ?_⟩
  · calc v < (em.mantissa + 1) * 2 ^ e := h.lt
      _ ≤ 2 ^ ((em.mantissa.log2 : Int) + 1 + e) := lt_two_zpow_of_log2 _ _
      _ ≤ 2 ^ (53 + t) := zpow_le_zpow_right₀ (by norm_num) (by omega)
  · by_cases hLeast : t = -1074
    · exact Or.inl hLeast
    · have hm : em.mantissa ≠ 0 := by
        intro hZero
        simp [hZero] at ht
        omega
      refine Or.inr ?_
      calc (2 : ℚ) ^ (52 + t) ≤ 2 ^ ((em.mantissa.log2 : Int) + e) :=
            zpow_le_zpow_right₀ (by norm_num) (by omega)
        _ ≤ em.mantissa * 2 ^ e := two_zpow_le_of_log2 hm e
        _ ≤ v := h.le

/-- The exponent that rounding settles on is that of the double, or just below a power of two the
one before it. -/
theorem targetExponent_of_inInterval {M : Nat} {q t : Int} {v : ℚ} (hDouble : IsDouble M q)
    (h : InInterval M q v) (hLeast : -1074 ≤ t) (hLt : v < 2 ^ (53 + t))
    (hGe : t = -1074 ∨ 2 ^ (52 + t) ≤ v) :
    t = q ∨ (t = q - 1 ∧ M = 2 ^ 52 ∧ -1074 < q) := by
  have hPos : (0 : ℚ) < 2 ^ q := by positivity
  have hM := hDouble.cast_le
  have hScale : ∀ k : Int, (2 : ℚ) ^ (k + q) = 2 ^ k * 2 ^ q := fun k => zpow_add₀ (by norm_num) k q
  rcases lt_trichotomy t q with hLess | hEq | hMore
  · right
    have hFull : 2 ^ 52 ≤ M := hDouble.full.resolve_right (by omega)
    have hBelow : v < 2 ^ (52 : Int) * 2 ^ q := by
      rw [← hScale]
      exact lt_of_lt_of_le hLt (zpow_le_zpow_right₀ (by norm_num) (by omega))
    have hM' : M = 2 ^ 52 := by
      have h₁ := lt_of_le_of_lt h.low hBelow
      have h₂ := (mul_lt_mul_iff_left₀ hPos).mp h₁
      have h₃ : (M : ℚ) < 2 ^ 52 + 1 := by
        have : (2 : ℚ) ^ (52 : Int) = 2 ^ 52 := by norm_num
        linarith
      have h₄ : M < 2 ^ 52 + 1 := by exact_mod_cast h₃
      omega
    have hNarrow := h.narrow hM' (by omega)
    refine ⟨?_, hM', by omega⟩
    by_contra hNot
    have hFar : v < 2 ^ (51 : Int) * 2 ^ q := by
      rw [← hScale]
      exact lt_of_lt_of_le hLt (zpow_le_zpow_right₀ (by norm_num) (by omega))
    have h₁ := (mul_lt_mul_iff_left₀ hPos).mp (lt_of_le_of_lt hNarrow hFar)
    rw [hM'] at h₁
    norm_num at h₁
  · exact Or.inl hEq
  · exfalso
    have hFull : 2 ^ (52 + t) ≤ v := hGe.resolve_left (by have := hDouble.le_exponent; omega)
    have hAbove : (2 : ℚ) ^ (53 : Int) * 2 ^ q ≤ v := by
      rw [← hScale]
      exact le_trans (zpow_le_zpow_right₀ (by norm_num) (by omega)) hFull
    have h₁ := (mul_le_mul_iff_left₀ hPos).mp (le_trans hAbove h.high)
    have : (2 : ℚ) ^ (53 : Int) = 2 ^ 53 := by norm_num
    linarith

theorem truncates_ofMantissaAndAccuracy_mantissa (m : Nat) (accuracy : Accuracy) :
    (ExtendedMantissa.ofMantissaAndAccuracy m accuracy).mantissa = m := by
  cases accuracy with
  | exact => rfl
  | inexact o => cases o <;> rfl

/-- A mantissa is brought to the target exponent by a shift to the right. -/
theorem shiftToTargetExponent_eq (m : Nat) (e : Int) (accuracy : Accuracy) :
    shiftToTargetExponent Format.binary64 m e accuracy =
      (let k := (Format.binary64.targetExponent (totalExponent m e) - e).toNat
       (ExtendedMantissa.ofMantissaAndAccuracy m accuracy >>> k, e + k)) := rfl

/-- A mantissa that fits stays as it is. -/
theorem shiftToTargetExponent_of_fits {m : Nat} {e : Int} (hm : m < 2 ^ 53) (he : -1074 ≤ e) :
    shiftToTargetExponent Format.binary64 m e .exact = (⟨m, false, false⟩, e) := by
  have hLog : m.log2 < 53 := by
    by_cases hZero : m = 0
    · simp [hZero]
    · exact (Nat.log2_lt hZero).mpr hm
  have hShift : (Format.binary64.targetExponent (totalExponent m e) - e).toNat = 0 := by
    rw [targetExponent_eq, totalExponent]
    omega
  rw [shiftToTargetExponent_eq, hShift]
  simp [HShiftRight.hShiftRight, Nat.repeat, ExtendedMantissa.ofMantissaAndAccuracy]

/-- A mantissa that rounding made one bit too long loses a zero. -/
theorem shiftToTargetExponent_of_overflow {e : Int} (he : -1074 ≤ e) :
    shiftToTargetExponent Format.binary64 (2 ^ 53) e .exact = (⟨2 ^ 52, false, false⟩, e + 1) := by
  have hShift : (Format.binary64.targetExponent (totalExponent (2 ^ 53) e) - e).toNat = 1 := by
    rw [targetExponent_eq, totalExponent, Nat.log2_two_pow]
    omega
  rw [shiftToTargetExponent_eq, hShift]
  simp [HShiftRight.hShiftRight, Nat.repeat, ExtendedMantissa.ofMantissaAndAccuracy,
    ExtendedMantissa.shiftRightOne]

/-- Rounding a number of the interval of a double gives the double. -/
theorem roundWithAccuracy_of_inInterval {M m : Nat} {q e : Int} {v : ℚ} {accuracy : Accuracy}
    (sign : Sign) (hDouble : IsDouble M q) (h : InInterval M q v)
    (hTruncates : Truncates (.ofMantissaAndAccuracy m accuracy) e v)
    (hLe : e ≤ Format.binary64.targetExponent (totalExponent m e)) :
    roundWithAccuracy Format.binary64 sign m e accuracy = .finite sign M q hDouble.pos := by
  generalize ht : Format.binary64.targetExponent (totalExponent m e) = t at hLe
  have hMantissa := truncates_ofMantissaAndAccuracy_mantissa m accuracy
  obtain ⟨hLeast, hLt, hGe⟩ := targetExponent_bounds hTruncates (by rw [hMantissa, ht]) hLe
  have hShifted := hTruncates.shiftRight (t - e).toNat
  have hExponent : e + ((t - e).toNat : Int) = t := by omega
  rw [hExponent] at hShifted
  have hFirst : shiftToTargetExponent Format.binary64 m e accuracy =
      (ExtendedMantissa.ofMantissaAndAccuracy m accuracy >>> (t - e).toNat, t) := by
    rw [shiftToTargetExponent_eq, ht]
    simp only [hExponent]
  have hFinite : ∀ n, n ≠ 0 → ∀ e', n = M → e' = q →
      (if h : n = 0 then UnpackedFloat.zero sign
        else .finite sign n e' (Nat.pos_of_ne_zero h)) = .finite sign M q hDouble.pos := by
    rintro n hn e' rfl rfl
    rw [dif_neg hn]
  rcases targetExponent_of_inInterval hDouble h hLeast hLt hGe with hSame | ⟨hBefore, hM, hq⟩
  · have hRounded : (ExtendedMantissa.ofMantissaAndAccuracy m accuracy >>>
        (t - e).toNat).roundedMantissa = M := by
      subst hSame
      exact hShifted.roundedMantissa h.low h.high h.odd
    rw [roundWithAccuracy, hFirst]
    simp only [hRounded, shiftToTargetExponent_of_fits hDouble.mantissa_lt hLeast]
    exact hFinite M hDouble.pos.ne' t rfl hSame
  · -- just below a power of two the mantissa is rounded up to one bit more, and shifted once again
    have hScale : (2 : ℚ) ^ q = 2 * 2 ^ t := by
      rw [show q = t + 1 by omega, zpow_add_one₀ (by norm_num)]
      ring
    have hPos : (0 : ℚ) < 2 ^ t := by positivity
    have hRounded : (ExtendedMantissa.ofMantissaAndAccuracy m accuracy >>>
        (t - e).toNat).roundedMantissa = 2 ^ 53 := by
      have hNarrow := h.narrow hM hq
      rw [hScale, hM] at hNarrow
      rw [zpow_add₀ (by norm_num)] at hLt
      refine hShifted.roundedMantissa ?_ ?_ (by norm_num)
      · push_cast at hNarrow ⊢
        linarith
      · push_cast
        have : (2 : ℚ) ^ (53 : Int) = 2 ^ 53 := by norm_num
        rw [this] at hLt
        linarith
    rw [roundWithAccuracy, hFirst]
    simp only [hRounded, shiftToTargetExponent_of_overflow hLeast]
    exact hFinite (2 ^ 52) (by norm_num) (t + 1) hM.symm (by omega)

end Lox.Decimal
