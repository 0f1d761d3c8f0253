import Lox.Decimal.Dyadic
import Lox.Proofs.Decimal.Rounding

/-! The bits of a double. A double is put together from its sign, exponent and fraction bits, and
the magnitude read off these bits determines it. -/
namespace Lox.Decimal

open Float.Model Float.Model.UnpackedFloat

/-- The fraction is in the lowest 52 bits. -/
theorem toNat_unpackMantissa (b : BitVec 64) :
    (@unpackMantissa Format.binary64 b).toNat = b.toNat % 2 ^ 52 := by
  simp [unpackMantissa, BitVec.extractLsb, BitVec.extractLsb'_toNat]

/-- The exponent is in the 11 bits above the fraction. -/
theorem toNat_unpackExponent (b : BitVec 64) :
    (@unpackExponent Format.binary64 b).toNat = b.toNat / 2 ^ 52 % 2 ^ 11 := by
  simp [unpackExponent, BitVec.extractLsb, BitVec.extractLsb'_toNat, Nat.shiftRight_eq_div_pow]

theorem toNat_unpackSign (b : BitVec 64) :
    (@unpackSign Format.binary64 b).toNat = b.toNat / 2 ^ 63 % 2 := by
  simp [unpackSign, BitVec.extractLsb, BitVec.extractLsb'_toNat, Nat.shiftRight_eq_div_pow]

/-- The fields of a double do not overlap. -/
theorem toNat_packComponents (sign : Sign) (exponent : BitVec 11) (mantissa : BitVec 52) :
    (packComponents Format.binary64 sign exponent mantissa).toNat =
      sign.toBitVec.toNat * 2 ^ 63 + exponent.toNat * 2 ^ 52 + mantissa.toNat := by
  have hAppend : ∀ {a b : Nat} (x : BitVec a) (y : BitVec b),
      (x ++ y).toNat = x.toNat * 2 ^ b + y.toNat := by
    intro a b x y
    rw [BitVec.toNat_append, ← Nat.shiftLeft_add_eq_or_of_lt y.isLt, Nat.shiftLeft_eq]
  simp only [packComponents, hAppend]
  ring

theorem unpackExponent_eq_allOnes_iff (b : BitVec 64) :
    @unpackExponent Format.binary64 b = -1#_ ↔ b.toNat / 2 ^ 52 % 2 ^ 11 = 2047 := by
  rw [← toNat_unpackExponent, ← BitVec.toNat_inj]
  simp

theorem unpackExponent_eq_zero_iff (b : BitVec 64) :
    @unpackExponent Format.binary64 b = 0#_ ↔ b.toNat / 2 ^ 52 % 2 ^ 11 = 0 := by
  rw [← toNat_unpackExponent, ← BitVec.toNat_inj]
  simp

theorem unpackMantissa_eq_zero_iff (b : BitVec 64) :
    @unpackMantissa Format.binary64 b = 0#_ ↔ b.toNat % 2 ^ 52 = 0 := by
  rw [← toNat_unpackMantissa, ← BitVec.toNat_inj]
  simp

def signOf (b : BitVec 64) : Sign := Sign.ofBitVec (@unpackSign Format.binary64 b)

theorem signOf_eq_positive_iff (b : BitVec 64) : signOf b = .positive ↔ b.toNat / 2 ^ 63 = 0 := by
  have hLt := b.isLt
  have hZero : @unpackSign Format.binary64 b = 0#1 ↔ b.toNat / 2 ^ 63 % 2 = 0 := by
    rw [← toNat_unpackSign, ← BitVec.toNat_inj]
    simp
  rw [signOf, Sign.ofBitVec]
  split
  next h =>
    have := hZero.mp h
    simp only [true_iff]
    omega
  next h =>
    have : b.toNat / 2 ^ 63 % 2 ≠ 0 := fun h' => h (hZero.mpr h')
    simp only [reduceCtorEq, false_iff]
    omega

/-- With exponent bits zero the mantissa is the fraction itself. -/
theorem unpack_of_subnormal {b : BitVec 64} (hExponent : b.toNat / 2 ^ 52 % 2 ^ 11 = 0)
    (hFraction : 0 < b.toNat % 2 ^ 52) :
    unpack Format.binary64 b = .finite (signOf b) (b.toNat % 2 ^ 52) (-1074) hFraction := by
  have h₂ := (unpackExponent_eq_zero_iff b).mpr hExponent
  have h₃ := mt (unpackMantissa_eq_zero_iff b).mp (by omega)
  rw [UnpackedFloat.unpack]
  simp only [h₂, h₃, ↓reduceIte, ↓reduceDIte]
  congr 1

/-- With other exponent bits there is a bit in front of the fraction that is not stored. -/
theorem unpack_of_normal {b : BitVec 64} (hZero : b.toNat / 2 ^ 52 % 2 ^ 11 ≠ 0)
    (hOnes : b.toNat / 2 ^ 52 % 2 ^ 11 ≠ 2047) :
    unpack Format.binary64 b = .finite (signOf b) (2 ^ 52 + b.toNat % 2 ^ 52)
      ((b.toNat / 2 ^ 52 % 2 ^ 11 : Nat) - 1075) (by positivity) := by
  have h₁ := mt (unpackExponent_eq_allOnes_iff b).mp hOnes
  have h₂ := mt (unpackExponent_eq_zero_iff b).mp hZero
  rw [UnpackedFloat.unpack]
  simp only [h₁, h₂, ↓reduceIte]
  congr 1
  · rw [BitVec.toNat_append, ← Nat.shiftLeft_add_eq_or_of_lt (BitVec.isLt _), toNat_unpackMantissa]
    rfl
  · rw [toNat_unpackExponent]
    rfl

/-- All ones in the exponent stand for infinity or for no number. -/
theorem unpack_of_allOnes {b : BitVec 64} (hExponent : b.toNat / 2 ^ 52 % 2 ^ 11 = 2047) :
    unpack Format.binary64 b =
      if b.toNat % 2 ^ 52 = 0 then .infinity (signOf b) else .notANumber := by
  have h₁ := (unpackExponent_eq_allOnes_iff b).mpr hExponent
  rw [UnpackedFloat.unpack]
  by_cases hFraction : b.toNat % 2 ^ 52 = 0
  · have h₂ := (unpackMantissa_eq_zero_iff b).mpr hFraction
    simp only [h₁, h₂, ↓reduceIte, hFraction]
    rfl
  · have h₂ := mt (unpackMantissa_eq_zero_iff b).mp hFraction
    simp only [h₁, h₂, ↓reduceIte, hFraction]

/-- The exponent bits of a double that is neither zero nor infinite. -/
def exponentBits (M : Nat) (q : Int) : Nat := if 2 ^ 52 ≤ M then (q + 1075).toNat else 0

/-- The bits of a double that is neither zero nor infinite. -/
theorem toNat_pack_finite {M : Nat} {q : Int} (h : IsDouble M q) (sign : Sign) :
    (UnpackedFloat.pack Format.binary64 (.finite sign M q h.pos)).toNat =
      sign.toBitVec.toNat * 2 ^ 63 + exponentBits M q * 2 ^ 52 + M % 2 ^ 52 := by
  obtain ⟨hPos, hLt, hLeast, hMost, hFull⟩ := h
  have hBias : (q + (Format.binary64.exponentBias : Int) +
      (Format.binary64.mantissaBitsWithoutImplicit : Int)).toNat = (q + 1075).toNat := by
    simp [Format.exponentBias]
    omega
  have hFits : ¬ 2 ^ Format.binary64.exponentBits ≤ (q + 1075).toNat + 1 := by
    simp
    omega
  simp only [UnpackedFloat.pack, hBias, hFits, ↓reduceIte]
  by_cases hNormal : 2 ^ 52 ≤ M
  · have hLog : M.log2 + 1 = Format.binary64.mantissaBits := by
      have h₁ := (Nat.le_log2 hPos.ne').mpr hNormal
      have h₂ := (Nat.log2_lt hPos.ne').mpr hLt
      simp [Format.mantissaBits]
      omega
    rw [if_pos hLog, toNat_packComponents, exponentBits, if_pos hNormal]
    simp only [BitVec.toNat_ofNat]
    omega
  · have hLog : ¬ M.log2 + 1 = Format.binary64.mantissaBits := by
      have h₁ := (Nat.log2_lt hPos.ne').mpr (by omega : M < 2 ^ 52)
      simp [Format.mantissaBits]
      omega
    rw [if_neg hLog, toNat_packComponents, exponentBits, if_neg hNormal]
    simp

/-- A double that is neither zero nor infinite does not have all ones in its exponent. -/
theorem exponentBits_lt {M : Nat} {q : Int} (h : IsDouble M q) : exponentBits M q < 2047 := by
  obtain ⟨hPos, hLt, hLeast, hMost, hFull⟩ := h
  rw [exponentBits]
  split <;> omega

def IsDouble.toFloat {M : Nat} {q : Int} (h : IsDouble M q) : Float :=
  .ofModel (.pack (.finite .positive M q h.pos))

theorem IsDouble.toNat_toBits {M : Nat} {q : Int} (h : IsDouble M q) :
    h.toFloat.toBits.toNat = exponentBits M q * 2 ^ 52 + M % 2 ^ 52 := by
  have hNat := toNat_pack_finite h .positive
  simp only [Sign.toBitVec, BitVec.toNat_zero, Nat.zero_mul, Nat.zero_add] at hNat
  exact hNat

/-- Taking a double apart again. -/
theorem IsDouble.unpack_toFloat {M : Nat} {q : Int} (h : IsDouble M q) :
    h.toFloat.toModel.unpack = .finite .positive M q h.pos := by
  have hNat := h.toNat_toBits
  have hBits := exponentBits_lt h
  change unpack Format.binary64 h.toFloat.toModel.toBits.toBitVec = _
  change h.toFloat.toModel.toBits.toBitVec.toNat = _ at hNat
  generalize h.toFloat.toModel.toBits.toBitVec = b at hNat
  have hSign : signOf b = .positive := (signOf_eq_positive_iff b).mpr (by omega)
  obtain ⟨hPos, hLt, hLeast, hMost, hFull⟩ := h
  by_cases hNormal : 2 ^ 52 ≤ M
  · rw [exponentBits, if_pos hNormal] at hNat
    rw [unpack_of_normal (by omega) (by omega)]
    simp only [hSign, UnpackedFloat.finite.injEq, true_and]
    constructor <;> omega
  · rw [exponentBits, if_neg hNormal] at hNat
    rw [unpack_of_subnormal (by omega) (by omega)]
    simp only [hSign, UnpackedFloat.finite.injEq, true_and]
    constructor <;> omega

/-- Doubles with the same bits are the same. -/
theorem eq_of_toNat_toBits {x y : Float} (h : x.toBits.toNat = y.toBits.toNat) : x = y := by
  obtain ⟨⟨bits, valid⟩⟩ := x
  obtain ⟨⟨bits', valid'⟩⟩ := y
  congr 1
  rw [Float.Model.mk.injEq]
  exact UInt64.toNat_inj.mp h

/-- A double that is neither infinite nor no number at all has exponent bits that are not all set. -/
theorem exponent_ne_of_finite {x : Float} (hNaN : x.isNaN = false) (hInf : x.isInf = false) :
    x.toBits.toNat / 2 ^ 52 % 2 ^ 11 ≠ 2047 := by
  intro hOnes
  have hUnpack := @unpack_of_allOnes x.toModel.toBits.toBitVec hOnes
  have hNaN' : (unpack Format.binary64 x.toModel.toBits.toBitVec).isNaN = false := hNaN
  have hInf' : (unpack Format.binary64 x.toModel.toBits.toBitVec).isInf = false := hInf
  rw [hUnpack] at hNaN' hInf'
  split at hNaN'
  next h =>
    rw [if_pos h] at hInf'
    cases hInf'
  next => cases hNaN'

/-- The mantissa and the exponent of a double in terms of its bits. -/
theorem Dyadic.ofFloat_eq (x : Float) : Dyadic.ofFloat x =
    if x.toBits.toNat / 2 ^ 52 % 2 ^ 11 = 0 then ⟨x.toBits.toNat % 2 ^ 52, -1074⟩
    else ⟨2 ^ 52 + x.toBits.toNat % 2 ^ 52, ((x.toBits.toNat / 2 ^ 52 % 2 ^ 11 : Nat) : Int) - 1075⟩ :=
  rfl

theorem isNegative_eq (x : Float) : isNegative x = (x.toBits.toNat / 2 ^ 63 == 1) := rfl

/-- Every double that is neither zero nor infinite has a mantissa and exponent in their only form. -/
theorem isDouble_ofFloat {x : Float} (hOnes : x.toBits.toNat / 2 ^ 52 % 2 ^ 11 ≠ 2047)
    (hNonzero : (Dyadic.ofFloat x).m ≠ 0) :
    IsDouble (Dyadic.ofFloat x).m (Dyadic.ofFloat x).q := by
  rw [Dyadic.ofFloat_eq] at hNonzero ⊢
  generalize x.toBits.toNat = bits at hOnes hNonzero ⊢
  split
  next h =>
    rw [if_pos h] at hNonzero
    constructor <;> dsimp only at hNonzero ⊢ <;> omega
  next h => constructor <;> dsimp only <;> omega

theorem div_two_pow_eq_zero_of_not_negative {x : Float} (h : isNegative x = false) :
    x.toBits.toNat / 2 ^ 63 = 0 := by
  have hLt := x.toBits.toNat_lt
  have : x.toBits.toNat / 2 ^ 63 ≠ 1 := by simpa [isNegative_eq] using h
  omega

/-- A positive finite double is determined by its magnitude. -/
theorem eq_toFloat_of_ofFloat {x : Float} (h : IsDouble (Dyadic.ofFloat x).m (Dyadic.ofFloat x).q)
    (hSign : isNegative x = false) : x = h.toFloat := by
  have hLt := x.toBits.toNat_lt
  have hPositive := div_two_pow_eq_zero_of_not_negative hSign
  apply eq_of_toNat_toBits
  rw [h.toNat_toBits, exponentBits, Dyadic.ofFloat_eq]
  generalize x.toBits.toNat = bits at hPositive hLt
  split <;> dsimp only <;> split <;> omega

end Lox.Decimal
