import Lox.Proofs.Lexing.Glyphs

/-! Glyphs and UTF-8. A glyph of a text is a character with the bytes that encode it, or a byte of its
own that begins no encoded character there. -/
namespace Lox

namespace Glyph

def ofChar (c : Char) : Glyph := ⟨c, Text.ofChar c⟩

theorem toNat_ofNat_of_isValidChar {n : Nat} (h : n.isValidChar) : (Char.ofNat n).toNat = n := by
  rw [Char.ofNat, dif_pos h]
  rfl

theorem isTail_iff {b : UInt8} : isTail b = true ↔ 128 ≤ b.toNat ∧ b.toNat ≤ 191 := by
  simp [isTail, UInt8.le_iff_toNat_le]

/-- The first two bytes of three: no shorter encoding would do, and surrogates are left out. -/
theorem beginsThree_iff {a b : UInt8} : beginsThree a b = true ↔
    224 ≤ a.toNat ∧ a.toNat ≤ 239 ∧ 128 ≤ b.toNat ∧ b.toNat ≤ 191 ∧
      (a.toNat = 224 → 160 ≤ b.toNat) ∧ (a.toNat = 237 → b.toNat ≤ 159) := by
  rw [beginsThree]
  split
  next h =>
    have ha : a.toNat = 224 := by simpa [← UInt8.toNat_inj] using h
    simp [UInt8.le_iff_toNat_le]
    omega
  next h =>
    have ha : a.toNat ≠ 224 := by simpa [← UInt8.toNat_inj] using h
    split
    next h' =>
      have ha' : a.toNat = 237 := by simpa [← UInt8.toNat_inj] using h'
      simp [UInt8.le_iff_toNat_le]
      omega
    next h' =>
      have ha' : a.toNat ≠ 237 := by simpa [← UInt8.toNat_inj] using h'
      simp [UInt8.le_iff_toNat_le, isTail_iff]
      omega

/-- The first two bytes of four: no shorter encoding would do, and no character is beyond them. -/
theorem beginsFour_iff {a b : UInt8} : beginsFour a b = true ↔
    240 ≤ a.toNat ∧ a.toNat ≤ 244 ∧ 128 ≤ b.toNat ∧ b.toNat ≤ 191 ∧
      (a.toNat = 240 → 144 ≤ b.toNat) ∧ (a.toNat = 244 → b.toNat ≤ 143) := by
  rw [beginsFour]
  split
  next h =>
    have ha : a.toNat = 240 := by simpa [← UInt8.toNat_inj] using h
    simp [UInt8.le_iff_toNat_le]
    omega
  next h =>
    have ha : a.toNat ≠ 240 := by simpa [← UInt8.toNat_inj] using h
    split
    next h' =>
      have ha' : a.toNat = 244 := by simpa [← UInt8.toNat_inj] using h'
      simp [UInt8.le_iff_toNat_le]
      omega
    next h' =>
      have ha' : a.toNat ≠ 244 := by simpa [← UInt8.toNat_inj] using h'
      simp [UInt8.le_iff_toNat_le, isTail_iff]
      omega

/-- The bytes that encode a character, by its number. -/
theorem ofChar_ofNat {n : Nat} (h : n.isValidChar) : Text.ofChar (Char.ofNat n) =
    if n ≤ 127 then [UInt8.ofNat n]
    else if n ≤ 2047 then [UInt8.ofNat (n / 64 % 32 + 192), UInt8.ofNat (n % 64 + 128)]
    else if n ≤ 65535 then
      [UInt8.ofNat (n / 4096 % 16 + 224), UInt8.ofNat (n / 64 % 64 + 128), UInt8.ofNat (n % 64 + 128)]
    else
      [UInt8.ofNat (n / 262144 % 8 + 240), UInt8.ofNat (n / 4096 % 64 + 128),
        UInt8.ofNat (n / 64 % 64 + 128), UInt8.ofNat (n % 64 + 128)] := by
  have hNat : (Char.ofNat n).val.toNat = n := toNat_ofNat_of_isValidChar h
  rw [Text.ofChar, String.utf8EncodeChar, hNat]

theorem ascii_eq_ofChar {b : UInt8} (h : b < 128) : ascii b = ofChar (Char.ofNat b.toNat) := by
  have hLess : b.toNat < 128 := UInt8.lt_iff_toNat_lt.mp h
  rw [ofChar, ofChar_ofNat (Or.inl (by omega)), if_pos (by omega), UInt8.ofNat_toNat, ascii]

/-- Two bytes that are read together encode the character they are read as. -/
theorem ofChar_two {a b : UInt8} (h : (0xC2 ≤ a && a ≤ 0xDF && isTail b) = true) :
    Text.ofChar (Char.ofNat ((a.toNat - 0xC0) * 64 + payload b)) = [a, b] := by
  simp only [Bool.and_eq_true, decide_eq_true_eq, UInt8.le_iff_toNat_le, isTail_iff,
    UInt8.reduceToNat] at h
  simp only [payload]
  rw [ofChar_ofNat (Or.inl (by omega)), if_neg (by omega), if_pos (by omega)]
  simp only [List.cons.injEq, and_true, ← UInt8.toNat_inj, UInt8.toNat_ofNat']
  omega

/-- Three bytes encode the character that they are read as. -/
theorem ofChar_three {a b c : UInt8} (h : (beginsThree a b && isTail c) = true) :
    Text.ofChar (Char.ofNat ((a.toNat - 0xE0) * 4096 + payload b * 64 + payload c)) = [a, b, c] := by
  simp only [Bool.and_eq_true, beginsThree_iff, isTail_iff] at h
  simp only [payload]
  have hValid : ((a.toNat - 0xE0) * 4096 + b.toNat % 64 * 64 + c.toNat % 64).isValidChar := by
    rw [Nat.isValidChar]
    omega
  rw [ofChar_ofNat hValid, if_neg (by omega), if_neg (by omega), if_pos (by omega)]
  simp only [List.cons.injEq, and_true, ← UInt8.toNat_inj, UInt8.toNat_ofNat']
  omega

/-- Four bytes encode the character that they are read as. -/
theorem ofChar_four {a b c d : UInt8} (h : (beginsFour a b && isTail c && isTail d) = true) :
    Text.ofChar (Char.ofNat ((a.toNat - 0xF0) * 262144 + payload b * 4096 + payload c * 64
      + payload d)) = [a, b, c, d] := by
  simp only [Bool.and_eq_true, beginsFour_iff, isTail_iff] at h
  simp only [payload]
  have hValid : ((a.toNat - 0xF0) * 262144 + b.toNat % 64 * 4096 + c.toNat % 64 * 64
      + d.toNat % 64).isValidChar := by
    rw [Nat.isValidChar]
    omega
  rw [ofChar_ofNat hValid, if_neg (by omega), if_neg (by omega), if_neg (by omega)]
  simp only [List.cons.injEq, and_true, ← UInt8.toNat_inj, UInt8.toNat_ofNat']
  omega

/-- The first glyph of a text is a character with its bytes, or the first byte stands alone. -/
theorem first_eq (a : UInt8) (rest : Text) :
    first a rest = ofChar (first a rest).char ∨ 128 ≤ a ∧ first a rest = stray a := by
  fun_cases first a rest with
  | case1 rest hPlain =>
      exact Or.inl (ascii_eq_ofChar hPlain)
  | case3 hPlain b rest hTwo => exact Or.inl (by rw [ofChar, ofChar_two hTwo])
  | case5 hPlain b c hTwo rest hThree => exact Or.inl (by rw [ofChar, ofChar_three hThree])
  | case7 hPlain b c hTwo hThree d rest hFour => exact Or.inl (by rw [ofChar, ofChar_four hFour])
  | _ => exact Or.inr ⟨UInt8.not_lt.mp (by assumption), rfl⟩

/-- Two bytes are read as one character. -/
theorem first_two {a b : UInt8} (h : (0xC2 ≤ a && a ≤ 0xDF && isTail b) = true) (rest : Text) :
    first a (b :: rest) = ofChar (Char.ofNat ((a.toNat - 0xC0) * 64 + payload b)) := by
  have hWide : ¬ a < 128 := by
    simp only [Bool.and_eq_true, decide_eq_true_eq, UInt8.le_iff_toNat_le] at h
    simp only [UInt8.lt_iff_toNat_lt, UInt8.reduceToNat] at h ⊢
    omega
  simp only [first, if_neg hWide, if_pos h, ofChar, ofChar_two h]

/-- Three bytes are read as one character. -/
theorem first_three {a b c : UInt8} (h : (beginsThree a b && isTail c) = true) (rest : Text) :
    first a (b :: c :: rest) =
      ofChar (Char.ofNat ((a.toNat - 0xE0) * 4096 + payload b * 64 + payload c)) := by
  have hRange := h
  rw [Bool.and_eq_true, beginsThree_iff] at hRange
  have hWide : ¬ a < 128 := by
    simp only [UInt8.lt_iff_toNat_lt, UInt8.reduceToNat]
    omega
  have hTwo : ¬ (0xC2 ≤ a && a ≤ 0xDF && isTail b) = true := by
    simp only [Bool.and_eq_true, decide_eq_true_eq, UInt8.le_iff_toNat_le, UInt8.reduceToNat]
    omega
  simp only [first, if_neg hWide, if_neg hTwo, if_pos h, ofChar, ofChar_three h]

/-- Four bytes are read as one character. -/
theorem first_four {a b c d : UInt8} (h : (beginsFour a b && isTail c && isTail d) = true)
    (rest : Text) : first a (b :: c :: d :: rest) =
      ofChar (Char.ofNat ((a.toNat - 0xF0) * 262144 + payload b * 4096 + payload c * 64
        + payload d)) := by
  have hRange := h
  rw [Bool.and_eq_true, Bool.and_eq_true, beginsFour_iff] at hRange
  have hWide : ¬ a < 128 := by
    simp only [UInt8.lt_iff_toNat_lt, UInt8.reduceToNat]
    omega
  have hTwo : ¬ (0xC2 ≤ a && a ≤ 0xDF && isTail b) = true := by
    simp only [Bool.and_eq_true, decide_eq_true_eq, UInt8.le_iff_toNat_le, UInt8.reduceToNat]
    omega
  have hThree : ¬ (beginsThree a b && isTail c) = true := by
    rw [Bool.and_eq_true, beginsThree_iff]
    omega
  simp only [first, if_neg hWide, if_neg hTwo, if_neg hThree, if_pos h, ofChar, ofChar_four h]

/-- The bytes that encode a character are read as that character whatever follows them. -/
theorem exists_first_eq (c : Char) :
    ∃ a tail, Text.ofChar c = a :: tail ∧ ∀ rest, first a (tail ++ rest) = ofChar c := by
  have hValid : c.toNat.isValidChar := c.valid
  have hChar {k : Nat} (h : k = c.toNat) : ofChar (Char.ofNat k) = ofChar c := by
    rw [h, Char.ofNat_toNat]
  have hBytes := ofChar_ofNat hValid
  rw [Char.ofNat_toNat] at hBytes
  rw [Nat.isValidChar] at hValid
  generalize c.toNat = n at hValid hChar hBytes
  have hSmall {k : Nat} (h : k < 256) : (UInt8.ofNat k).toNat = k := UInt8.toNat_ofNat_of_lt h
  split at hBytes
  next hOne =>
    have ha : (UInt8.ofNat n).toNat = n := hSmall (by omega)
    have hPlain : UInt8.ofNat n < 128 := by
      rw [UInt8.lt_iff_toNat_lt, ha]
      exact Nat.lt_succ_of_le hOne
    refine ⟨_, [], hBytes, fun rest => ?_⟩
    rw [List.nil_append, first_of_ascii hPlain, ascii_eq_ofChar hPlain]
    exact hChar ha
  next hOne =>
  split at hBytes
  next hTwo =>
    have ha : (UInt8.ofNat (n / 64 % 32 + 192)).toNat = n / 64 % 32 + 192 := hSmall (by omega)
    have hb : (UInt8.ofNat (n % 64 + 128)).toNat = n % 64 + 128 := hSmall (by omega)
    refine ⟨_, [_], hBytes, fun rest => ?_⟩
    rw [List.singleton_append, first_two]
    · exact hChar (by simp only [payload, ha, hb]; omega)
    · simp only [Bool.and_eq_true, decide_eq_true_eq, UInt8.le_iff_toNat_le, isTail_iff, ha, hb,
        UInt8.reduceToNat]
      omega
  next hTwo =>
  have hLast : (UInt8.ofNat (n % 64 + 128)).toNat = n % 64 + 128 := hSmall (by omega)
  have hMiddle : (UInt8.ofNat (n / 64 % 64 + 128)).toNat = n / 64 % 64 + 128 := hSmall (by omega)
  split at hBytes
  next hThree =>
    have ha : (UInt8.ofNat (n / 4096 % 16 + 224)).toNat = n / 4096 % 16 + 224 := hSmall (by omega)
    refine ⟨_, [_, _], hBytes, fun rest => ?_⟩
    rw [List.cons_append, List.singleton_append, first_three]
    · exact hChar (by simp only [payload, ha, hMiddle, hLast]; omega)
    · rw [Bool.and_eq_true, beginsThree_iff, isTail_iff, ha, hMiddle, hLast]
      omega
  next hThree =>
    have ha : (UInt8.ofNat (n / 262144 % 8 + 240)).toNat = n / 262144 % 8 + 240 := hSmall (by omega)
    have hb : (UInt8.ofNat (n / 4096 % 64 + 128)).toNat = n / 4096 % 64 + 128 := hSmall (by omega)
    refine ⟨_, [_, _, _], hBytes, fun rest => ?_⟩
    rw [List.cons_append, List.cons_append, List.singleton_append, first_four]
    · exact hChar (by simp only [payload, ha, hb, hMiddle, hLast]; omega)
    · rw [Bool.and_eq_true, Bool.and_eq_true, beginsFour_iff, isTail_iff, isTail_iff, ha, hb, hMiddle,
        hLast]
      omega

/-- Every character is read back from its encoding, whatever follows. -/
theorem isWhole_ofChar (c : Char) : (ofChar c).IsWhole := by
  intro rest
  obtain ⟨a, tail, hBytes, hFirst⟩ := exists_first_eq c
  rw [ofChar, hBytes, List.cons_append, glyphs_cons, hFirst, ofChar, hBytes]
  simp

end Glyph

/-- Every glyph of a text is an encoded character or a byte that stands alone. -/
theorem Text.eq_ofChar_of_mem_glyphs {t : Text} {g : Glyph} (h : g ∈ glyphs t) :
    g = Glyph.ofChar g.char ∨ ∃ b ≥ 128, g = Glyph.stray b := by
  obtain ⟨a, rest, rfl⟩ := exists_first_of_mem h
  exact (Glyph.first_eq a rest).imp id fun hStray => ⟨a, hStray⟩

end Lox
