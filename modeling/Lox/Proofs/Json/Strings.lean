import Lox.Json.Reader
import Lox.Proofs.Lexing.Encoding

/-! Strings in JSON. What is written between quotes is read back as the text with its stray bytes
replaced, and nothing in it can be taken for the end of a line. -/
namespace Lox

namespace Text

theorem ofChar_of_ascii {c : Char} (h : c.toNat < 128) : ofChar c = [UInt8.ofNat c.toNat] := by
  have hValid : c.toNat.isValidChar := c.valid
  have hBytes := Glyph.ofChar_ofNat hValid
  rwa [Char.ofNat_toNat, if_pos (Nat.le_of_lt_succ h)] at hBytes

/-- A character outside ASCII is encoded in bytes outside ASCII. -/
theorem le_of_mem_ofChar {c : Char} (h : 128 ≤ c.toNat) {b : UInt8} (hb : b ∈ ofChar c) : 128 ≤ b := by
  have hValid : c.toNat.isValidChar := c.valid
  have hBytes := Glyph.ofChar_ofNat hValid
  have hSmall {k : Nat} (hLow : 128 ≤ k) (hHigh : k < 256) : 128 ≤ UInt8.ofNat k := by
    have hNat : (UInt8.ofNat k).toNat = k := UInt8.toNat_ofNat_of_lt hHigh
    rw [UInt8.le_iff_toNat_le, hNat]
    exact hLow
  rw [Char.ofNat_toNat, if_neg (by omega)] at hBytes
  rw [hBytes] at hb
  generalize c.toNat = n at hb
  split at hb
  next =>
    simp only [List.mem_cons, List.not_mem_nil, or_false] at hb
    rcases hb with rfl | rfl <;> exact hSmall (by omega) (by omega)
  next =>
    split at hb
    next =>
      simp only [List.mem_cons, List.not_mem_nil, or_false] at hb
      rcases hb with rfl | rfl | rfl <;> exact hSmall (by omega) (by omega)
    next =>
      simp only [List.mem_cons, List.not_mem_nil, or_false] at hb
      rcases hb with rfl | rfl | rfl | rfl <;> exact hSmall (by omega) (by omega)

end Text

namespace Json

variable {done rest : Text}

theorem readString_byte {b : UInt8} (hQuote : b ≠ 34) (hEscape : b ≠ 92) (hPlain : 32 ≤ b) :
    readString none done (b :: rest) = readString none (b :: done) rest := by
  rw [readString.eq_def]
  split
  next h => cases h
  next h =>
    cases h
    exact absurd rfl hQuote
  next h =>
    cases h
    exact absurd rfl hEscape
  next h =>
    cases h
    exact absurd rfl hEscape
  next h =>
    cases h
    rw [if_neg (UInt8.not_lt.mpr hPlain)]
    rfl

/-- Bytes that need no escape are read as they are. -/
theorem readString_bytes {t : Text} (h : ∀ b ∈ t, b ≠ 34 ∧ b ≠ 92 ∧ 32 ≤ b) :
    readString none done (t ++ rest) = readString none (t.reverse ++ done) rest := by
  induction t generalizing done with
  | nil => rfl
  | cons b t ih =>
      obtain ⟨⟨hQuote, hEscape, hPlain⟩, hRest⟩ := List.forall_mem_cons.mp h
      rw [List.cons_append, readString_byte hQuote hEscape hPlain, ih hRest, List.reverse_cons,
        List.append_assoc, List.singleton_append]

/-- An escape with one letter is read as the byte that it stands for. -/
theorem readString_escape {e b : UInt8} (hUnit : e ≠ 117) (h : escape? e = some b) :
    readString none done (92 :: e :: rest) = readString none (b :: done) rest := by
  rw [readString.eq_def]
  split
  next h' => cases h'
  next h' => cases h'
  next h' =>
    cases h'
    exact absurd rfl hUnit
  next h' =>
    cases h'
    rw [h]
    rfl
  next hOther h' =>
    cases h'
    exact (hOther e rest rfl rfl).elim

/-- Four hexadecimal digits give the number back. -/
theorem unit?_hex {n : Nat} (h : n < 65536) : unit? (Text.hex 4 n) = some n := by
  have hDigit : ∀ d < 16, hexValue? (Text.hexDigit d) = some d := by decide
  have hValue (d : Nat) : hexValue? (Text.hexDigit (d % 16)) = some (d % 16) :=
    hDigit _ (Nat.mod_lt _ (by omega))
  have hNumber : (((n / 16 / 16 / 16 % 16) * 16 + n / 16 / 16 % 16) * 16 + n / 16 % 16) * 16 + n % 16 =
      n := by omega
  simp [Text.hex, unit?, hValue, hNumber]

/-- An escape in hexadecimal is read as the character with that number. -/
theorem readString_unit {n : Nat} (h : n < 0xD800) :
    readString none done (92 :: 117 :: (Text.hex 4 n ++ rest)) =
      readString none ((Text.ofChar (Char.ofNat n)).reverse ++ done) rest := by
  have hUnit := unit?_hex (show n < 65536 by omega)
  simp only [Text.hex, List.nil_append, List.cons_append] at hUnit ⊢
  rw [readString, hUnit]
  simp only
  rw [if_neg (by omega), if_neg (by omega)]
  rfl

/-- A character that is not escaped is written in bytes that stand for themselves. -/
theorem plain_of_mem_ofChar {c : Char} (h : c.toNat ≠ 34 ∧ c.toNat ≠ 92 ∧ 32 ≤ c.toNat) :
    ∀ b ∈ Text.ofChar c, b ≠ 34 ∧ b ≠ 92 ∧ 32 ≤ b := by
  intro b hb
  have hNe {k : UInt8} (h : b.toNat ≠ k.toNat) : b ≠ k := fun hEq => h (congrArg _ hEq)
  have hByte : b.toNat ≠ 34 ∧ b.toNat ≠ 92 ∧ 32 ≤ b.toNat := by
    rcases Nat.lt_or_ge c.toNat 128 with hAscii | hWide
    · rw [Text.ofChar_of_ascii hAscii, List.mem_singleton] at hb
      have hNat : b.toNat = c.toNat := by
        rw [hb]
        exact UInt8.toNat_ofNat_of_lt (hAscii.trans (by decide))
      rwa [hNat]
    · have hLarge : 128 ≤ b.toNat := UInt8.le_iff_toNat_le.mp (Text.le_of_mem_ofChar hWide hb)
      omega
  exact ⟨hNe hByte.1, hNe hByte.2.1, UInt8.le_iff_toNat_le.mpr hByte.2.2⟩

theorem concat_unit (n : Nat) : Text.concat ["\\u", Text.hex 4 n] = 92 :: 117 :: Text.hex 4 n := by
  simp [Text.concat, show Text.ofString "\\u" = [92, 117] by decide]

/-- However a character is written, it is read as its encoding. -/
theorem readString_escapedGlyph (g : Glyph) :
    readString none done (escapedGlyph g ++ rest) =
      readString none ((Text.ofChar g.char).reverse ++ done) rest := by
  have hNamed {n : Nat} {e : UInt8} (h : g.char.toNat = n) (hn : n < 128) (hUnit : e ≠ 117)
      (hEscape : escape? e = some (UInt8.ofNat n)) : readString none done (92 :: e :: rest) =
        readString none ((Text.ofChar g.char).reverse ++ done) rest := by
    rw [readString_escape hUnit hEscape, Text.ofChar_of_ascii (h ▸ hn), h]
    rfl
  rw [escapedGlyph.eq_def]
  split
  next h => exact hNamed h (by decide) (by decide) rfl
  next h => exact hNamed h (by decide) (by decide) rfl
  next h => exact hNamed h (by decide) (by decide) rfl
  next h => exact hNamed h (by decide) (by decide) rfl
  next h => exact hNamed h (by decide) (by decide) rfl
  next h => exact hNamed h (by decide) (by decide) rfl
  next h => exact hNamed h (by decide) (by decide) rfl
  next hQuote hEscape =>
    split
    next hUnit =>
      have hLess : g.char.toNat < 0xD800 := by
        simp only [Bool.or_eq_true, decide_eq_true_eq, beq_iff_eq] at hUnit
        omega
      rw [concat_unit, List.cons_append, List.cons_append, readString_unit hLess, Char.ofNat_toNat]
    next hPlain =>
      simp only [Bool.or_eq_true, decide_eq_true_eq, beq_iff_eq, not_or, not_lt] at hPlain
      exact readString_bytes (plain_of_mem_ofChar ⟨hQuote, hEscape, by omega⟩)

/-- Each glyph is read back from its escape as its character. -/
theorem readString_glyphs (gs : List Glyph) :
    readString none done (gs.flatMap escapedGlyph ++ 34 :: rest) =
      some (done.reverse ++ gs.flatMap fun g => Text.ofChar g.char, rest) := by
  induction gs generalizing done with
  | nil => simp [readString, flush]
  | cons g gs ih =>
      rw [List.flatMap_cons, List.flatMap_cons, List.append_assoc, readString_escapedGlyph, ih]
      simp

/-- Encoded characters are read one by one. -/
theorem glyphs_flatMap_ofChar (cs : List Char) :
    Text.glyphs (cs.flatMap Text.ofChar) = cs.map Glyph.ofChar := by
  induction cs with
  | nil => simp [Text.glyphs]
  | cons c cs ih =>
      rw [List.flatMap_cons, List.map_cons, ← ih]
      exact Glyph.isWhole_ofChar c _

/-- Once repaired, a text has no stray byte. -/
theorem repaired_repaired (t : Text) : repaired (repaired t) = repaired t := by
  have hChars : repaired t = ((Text.glyphs t).map Glyph.char).flatMap Text.ofChar := by
    rw [List.flatMap_map]
    rfl
  rw [repaired, hChars, glyphs_flatMap_ofChar]
  simp [List.flatMap_map, Glyph.ofChar]

/-- A quoted text is read back repaired. -/
theorem string?_quoted (t rest : Text) :
    string? ((Text.glyphs t).flatMap escapedGlyph ++ 34 :: rest) = some (repaired t, rest) := by
  rw [string?, readString_glyphs, Option.map_some, List.reverse_nil, List.nil_append]
  change some (repaired (repaired t), rest) = _
  rw [repaired_repaired]

theorem quotedString_eq (t : Text) :
    quotedString t = 34 :: ((Text.glyphs t).flatMap escapedGlyph ++ [34]) := by
  simp [quotedString, Text.concat, show Text.ofString "\"" = [34] by decide]

/-- A text of ASCII bytes is one glyph a byte. -/
theorem glyphs_eq_map {t : Text} (h : ∀ b ∈ t, b < 128) : Text.glyphs t = t.map Glyph.ascii := by
  induction t with
  | nil => simp [Text.glyphs]
  | cons b t ih =>
      obtain ⟨hb, hRest⟩ := List.forall_mem_cons.mp h
      rw [Glyph.glyphs_of_ascii hb, ih hRest, List.map_cons]

/-- There is nothing to repair in ASCII. -/
theorem repaired_of_ascii {t : Text} (h : ∀ b ∈ t, b < 128) : repaired t = t := by
  have hByte : ∀ b ∈ t, Text.ofChar (Glyph.ascii b).char = [b] :=
    fun b hb => congrArg Glyph.bytes (Glyph.ascii_eq_ofChar (h b hb)).symm
  rw [repaired, glyphs_eq_map h, List.flatMap_map, List.flatMap_congr hByte, List.flatMap_singleton']

theorem escapedGlyph_ne_nil (g : Glyph) : escapedGlyph g ≠ [] := by
  rw [escapedGlyph.eq_def]
  split
  case _ | _ | _ | _ | _ | _ | _ => decide
  next =>
    split
    · rw [concat_unit]
      simp
    · obtain ⟨b, tail, hBytes, -⟩ := Glyph.exists_first_eq g.char
      simp [hBytes]

/-- Nothing is lost of a string of ASCII bytes. -/
theorem length_le_quotedString {t : Text} (h : ∀ b ∈ t, b < 128) :
    t.length ≤ (quotedString t).length := by
  rw [quotedString_eq, glyphs_eq_map h, List.flatMap_map, List.length_cons, List.length_append]
  have hAll : t.length ≤ (t.flatMap fun b => escapedGlyph (Glyph.ascii b)).length := by
    clear h
    induction t with
    | nil => exact Nat.le_refl 0
    | cons b t ih =>
        have hPos := List.length_pos_of_ne_nil (escapedGlyph_ne_nil (Glyph.ascii b))
        rw [List.flatMap_cons, List.length_append, List.length_cons]
        omega
  omega

/-- No control character stands in a string. -/
theorem all_escapedGlyph (g : Glyph) : (escapedGlyph g).all (32 ≤ ·) = true := by
  rw [escapedGlyph.eq_def]
  split
  case _ | _ | _ | _ | _ | _ | _ => decide
  next hQuote hEscape =>
    split
    next =>
      have hDigit : ∀ d < 16, 32 ≤ Text.hexDigit d := by decide
      have hHex (d : Nat) : 32 ≤ Text.hexDigit (d % 16) := hDigit _ (Nat.mod_lt _ (by omega))
      rw [concat_unit]
      simp [Text.hex, hHex]
    next hPlain =>
      simp only [Bool.or_eq_true, decide_eq_true_eq, beq_iff_eq, not_or, not_lt] at hPlain
      refine List.all_eq_true.mpr fun b hb => decide_eq_true ?_
      exact (plain_of_mem_ofChar ⟨hQuote, hEscape, by omega⟩ b hb).2.2

/-- A quoted text has no control bytes. -/
theorem all_quotedString (t : Text) : (quotedString t).all (32 ≤ ·) = true := by
  rw [quotedString_eq, List.all_cons, List.all_append, List.all_flatMap]
  simp [all_escapedGlyph]

end Json
end Lox
