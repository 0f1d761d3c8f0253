import Mathlib
import Lox.Text.Glyph

/-! How the bytes of a text fall into glyphs. An ASCII byte is a glyph of its own wherever it stands,
so what tells ASCII characters apart can be asked of the bytes as well. -/
namespace Lox

namespace Glyph

def ascii (b : UInt8) : Glyph := ⟨Char.ofNat b.toNat, [b]⟩

/-- The bytes of the glyph spell it whatever follows them. -/
def IsWhole (g : Glyph) : Prop := ∀ rest, Text.glyphs (g.bytes ++ rest) = g :: Text.glyphs rest

/-- A glyph outside ASCII: its bytes and its character are, and it is whole unless it stands for a
byte that is no part of UTF-8. -/
structure IsWide (g : Glyph) : Prop where
  bytes : ∀ b ∈ g.bytes, 128 ≤ b
  char : g.char.toNat = 0 ∨ 128 ≤ g.char.toNat
  whole : g.char = replacement ∨ g.IsWhole

/-- A text is read glyph by glyph. -/
theorem glyphs_cons (a : UInt8) (rest : Text) :
    Text.glyphs (a :: rest) =
      first a rest :: Text.glyphs (rest.drop ((first a rest).bytes.length - 1)) := by
  rw [Text.glyphs]

/-- An ASCII byte is a glyph of its own. -/
theorem first_of_ascii {a : UInt8} (h : a < 128) (rest : Text) : first a rest = ascii a := by
  rw [first.eq_def, if_pos h]
  rfl

theorem glyphs_of_ascii {a : UInt8} (h : a < 128) (rest : Text) :
    Text.glyphs (a :: rest) = ascii a :: Text.glyphs rest := by
  rw [glyphs_cons, first_of_ascii h]
  rfl

theorem isWhole_ascii {a : UInt8} (h : a < 128) : (ascii a).IsWhole :=
  fun rest => glyphs_of_ascii h rest

/-- A number outside ASCII is no ASCII character, or none at all. -/
theorem toNat_ofNat_of_large {n : Nat} (h : 128 ≤ n) :
    (Char.ofNat n).toNat = 0 ∨ 128 ≤ (Char.ofNat n).toNat := by
  rw [Char.ofNat]
  split
  · right
    exact h
  · exact Or.inl rfl

theorem isTail_le {b : UInt8} (h : isTail b = true) : 128 ≤ b := by
  simp only [isTail, Bool.and_eq_true, decide_eq_true_eq] at h
  exact h.1

/-- A sequence of three bytes encodes no ASCII character. -/
theorem beginsThree_le {a b : UInt8} (h : beginsThree a b = true) :
    128 ≤ b ∧ 128 ≤ (a.toNat - 0xE0) * 4096 + payload b * 64 := by
  simp only [beginsThree, isTail, payload] at *
  rw [UInt8.le_iff_toNat_le, show UInt8.toNat 128 = 128 from rfl]
  split at h
  next hEq =>
    simp [UInt8.le_iff_toNat_le] at h
    omega
  next hEq =>
    split at h
    next hEq' =>
      have : a.toNat = 0xED := by simpa [← UInt8.toNat_inj] using hEq'
      simp [UInt8.le_iff_toNat_le] at h
      omega
    next =>
      have : a.toNat ≠ 0xE0 := by simpa [← UInt8.toNat_inj] using hEq
      simp [UInt8.le_iff_toNat_le] at h
      omega

/-- A sequence of four bytes encodes no ASCII character. -/
theorem beginsFour_le {a b : UInt8} (h : beginsFour a b = true) :
    128 ≤ b ∧ 128 ≤ (a.toNat - 0xF0) * 262144 + payload b * 4096 := by
  simp only [beginsFour, isTail, payload] at *
  rw [UInt8.le_iff_toNat_le, show UInt8.toNat 128 = 128 from rfl]
  split at h
  next =>
    simp [UInt8.le_iff_toNat_le] at h
    omega
  next hEq =>
    split at h
    next hEq' =>
      have : a.toNat = 0xF4 := by simpa [← UInt8.toNat_inj] using hEq'
      simp [UInt8.le_iff_toNat_le] at h
      omega
    next =>
      have : a.toNat ≠ 0xF0 := by simpa [← UInt8.toNat_inj] using hEq
      simp [UInt8.le_iff_toNat_le] at h
      omega

/-- How a first byte outside ASCII is read: on its own, or with the bytes of one UTF-8 sequence,
which it then takes whatever follows them. -/
def ReadsWide (a : UInt8) (rest : Text) : Prop :=
  first a rest = stray a ∨
    ∃ tail rest' n, rest = tail ++ rest' ∧ 128 ≤ n ∧ (∀ b ∈ tail, 128 ≤ b) ∧
      ∀ other, first a (tail ++ other) = ⟨Char.ofNat n, a :: tail⟩

/-- Every byte outside ASCII is read in one of the two ways. -/
theorem readsWide {a : UInt8} (h : 128 ≤ a) (rest : Text) : ReadsWide a rest := by
  have hWide : ¬ a < 128 := UInt8.not_lt.mpr h
  cases rest with
  | nil => exact Or.inl (by simp [first, hWide])
  | cons b rest =>
  by_cases hTwo : (0xC2 ≤ a && a ≤ 0xDF && isTail b) = true
  · refine Or.inr ⟨[b], rest, (a.toNat - 0xC0) * 64 + payload b, rfl, ?_, ?_, ?_⟩
    · simp only [Bool.and_eq_true, decide_eq_true_eq] at hTwo
      have : 0xC2 ≤ a.toNat := UInt8.le_iff_toNat_le.mp hTwo.1.1
      omega
    · simp only [Bool.and_eq_true] at hTwo
      simpa using isTail_le hTwo.2
    · intro other
      simp only [List.cons_append, List.nil_append, first, if_neg hWide, if_pos hTwo]
  cases rest with
  | nil => exact Or.inl (by simp only [first, if_neg hWide, if_neg hTwo])
  | cons c rest =>
  by_cases hThree : (beginsThree a b && isTail c) = true
  · refine Or.inr ⟨[b, c], rest, (a.toNat - 0xE0) * 4096 + payload b * 64 + payload c, rfl, ?_, ?_, ?_⟩
    · simp only [Bool.and_eq_true] at hThree
      exact Nat.le_add_right_of_le (beginsThree_le hThree.1).2
    · simp only [Bool.and_eq_true] at hThree
      simpa using ⟨(beginsThree_le hThree.1).1, isTail_le hThree.2⟩
    · intro other
      simp only [List.cons_append, List.nil_append, first, if_neg hWide, if_neg hTwo, if_pos hThree]
  cases rest with
  | nil => exact Or.inl (by simp only [first, if_neg hWide, if_neg hTwo, if_neg hThree])
  | cons d rest =>
  by_cases hFour : (beginsFour a b && isTail c && isTail d) = true
  · refine Or.inr ⟨[b, c, d], rest, (a.toNat - 0xF0) * 262144 + payload b * 4096 + payload c * 64
      + payload d, rfl, ?_, ?_, ?_⟩
    · simp only [Bool.and_eq_true] at hFour
      exact Nat.le_add_right_of_le (Nat.le_add_right_of_le (beginsFour_le hFour.1.1).2)
    · simp only [Bool.and_eq_true] at hFour
      simpa using ⟨(beginsFour_le hFour.1.1).1, isTail_le hFour.1.2, isTail_le hFour.2⟩
    · intro other
      simp only [List.cons_append, List.nil_append, first, if_neg hWide, if_neg hTwo,
        if_neg hThree, if_pos hFour]
  · exact Or.inl (by simp only [first, if_neg hWide, if_neg hTwo, if_neg hThree, if_neg hFour])

/-- What stands at the front of a text that is not empty. -/
theorem first_spec (a : UInt8) (rest : Text) :
    (a < 128 ∧ first a rest = ascii a) ∨ (first a rest).IsWide := by
  rcases Nat.lt_or_ge a.toNat 128 with hLess | hGe
  · exact Or.inl ⟨UInt8.lt_iff_toNat_lt.mpr hLess, first_of_ascii (UInt8.lt_iff_toNat_lt.mpr hLess) rest⟩
  · have ha : 128 ≤ a := UInt8.le_iff_toNat_le.mpr hGe
    right
    rcases readsWide ha rest with hStray | ⟨tail, rest', n, rfl, hn, hTail, hFirst⟩
    · rw [hStray]
      exact ⟨by simpa [stray] using ha, Or.inr (by simp [stray]; decide), Or.inl rfl⟩
    · rw [hFirst]
      refine ⟨by simpa using ⟨ha, hTail⟩, toNat_ofNat_of_large hn, Or.inr fun other => ?_⟩
      rw [List.cons_append, glyphs_cons, hFirst]
      simp

theorem toNat_char_ascii {b : UInt8} (h : b < 128) : (ascii b).char.toNat = b.toNat := by
  have hLess : b.toNat < 128 := UInt8.lt_iff_toNat_lt.mp h
  have hValid : b.toNat.isValidChar := Or.inl (by omega)
  rw [ascii, Char.ofNat, dif_pos hValid]
  rfl

/-- An ASCII character at the front of a text is its first byte. -/
theorem eq_of_char_first {a b : UInt8} {rest : Text} (hPos : 0 < b) (h : b < 128)
    (hChar : (first a rest).char = (ascii b).char) : a = b := by
  have hNat := congrArg Char.toNat hChar
  rw [toNat_char_ascii h] at hNat
  rcases first_spec a rest with ⟨ha, hFirst⟩ | hWide
  · rw [hFirst, toNat_char_ascii ha] at hNat
    exact UInt8.toNat_inj.mp hNat
  · have hLess : b.toNat < 128 := UInt8.lt_iff_toNat_lt.mp h
    have hPos' : 0 < b.toNat := UInt8.lt_iff_toNat_lt.mp hPos
    have := hWide.char
    omega

/-- The first glyph takes the first byte and some of what follows. -/
theorem bytes_first (a : UInt8) (rest : Text) :
    ∃ tail rest', rest = tail ++ rest' ∧ (first a rest).bytes = a :: tail := by
  rcases Nat.lt_or_ge a.toNat 128 with hLess | hGe
  · exact ⟨[], rest, rfl, by rw [first_of_ascii (UInt8.lt_iff_toNat_lt.mpr hLess)]; rfl⟩
  · rcases readsWide (UInt8.le_iff_toNat_le.mpr hGe) rest with hStray |
      ⟨tail, rest', n, rfl, _, _, hFirst⟩
    · exact ⟨[], rest, rfl, by rw [hStray]; rfl⟩
    · exact ⟨tail, rest', rfl, by rw [hFirst]⟩

end Glyph

namespace Text

open Glyph

/-- The glyphs of a text together are the text. -/
theorem ofGlyphs_glyphs (t : Text) : ofGlyphs (glyphs t) = t := by
  induction hn : t.length using Nat.strongRecOn generalizing t with
  | ind n ih =>
      cases t with
      | nil => simp [glyphs, ofGlyphs]
      | cons a t =>
          obtain ⟨tail, rest, rfl, hBytes⟩ := bytes_first a t
          have hLess : rest.length < n := by
            rw [← hn, List.length_cons, List.length_append]
            omega
          have hRest := ih rest.length hLess rest rfl
          rw [ofGlyphs] at hRest
          rw [glyphs_cons, ofGlyphs, List.flatMap_cons, hBytes]
          simp [hRest]

/-- The glyphs from some place on are those of the text from there on. -/
theorem glyphs_ofGlyphs_of_append {t : Text} {xs ys : List Glyph} (h : glyphs t = xs ++ ys) :
    glyphs (ofGlyphs ys) = ys := by
  induction xs generalizing t with
  | nil => rw [← List.nil_append ys, ← h, ofGlyphs_glyphs]
  | cons x xs ih =>
      cases t with
      | nil => simp [glyphs] at h
      | cons a t =>
          rw [glyphs_cons, List.cons_append, List.cons.injEq] at h
          exact ih h.2

/-- Every glyph of a text is the first one of what is left there. -/
theorem exists_first_of_mem {t : Text} {g : Glyph} (h : g ∈ glyphs t) :
    ∃ a rest, g = first a rest := by
  obtain ⟨xs, ys, hSplit⟩ := List.append_of_mem h
  have hGlyphs := glyphs_ofGlyphs_of_append hSplit
  cases hText : ofGlyphs (g :: ys) with
  | nil => simp [hText, glyphs] at hGlyphs
  | cons a rest =>
      rw [hText, glyphs_cons, List.cons.injEq] at hGlyphs
      exact ⟨a, rest, hGlyphs.1.symm⟩

/-- A sort of glyphs and a sort of bytes that go together: a glyph is of the sort if its bytes are. -/
structure Sorts (p : Glyph → Bool) (q : UInt8 → Bool) : Prop where
  plain : ∀ b < 128, p (ascii b) = q b
  wide : ∀ g : Glyph, g.IsWide → ∀ b ∈ g.bytes, p g = q b

/-- Sorts can be combined. -/
theorem Sorts.and {p p' : Glyph → Bool} {q q' : UInt8 → Bool} (h : Sorts p q) (h' : Sorts p' q') :
    Sorts (fun g => p g && p' g) (fun b => q b && q' b) := by
  refine ⟨fun b hb => ?_, fun g hWide b hb => ?_⟩
  · simp only [h.plain b hb, h'.plain b hb]
  · simp only [h.wide g hWide b hb, h'.wide g hWide b hb]

/-- All glyphs but one that is an ASCII byte. -/
theorem sorts_ne {b : UInt8} (hPos : 0 < b) (h : b < 128) :
    Sorts (fun g => g.char != (ascii b).char) (· != b) := by
  have hNat : 0 < b.toNat ∧ b.toNat < 128 :=
    ⟨UInt8.lt_iff_toNat_lt.mp hPos, UInt8.lt_iff_toNat_lt.mp h⟩
  constructor
  · intro c hc
    by_cases hEq : c = b
    · simp [hEq]
    · have hChar : (ascii c).char ≠ (ascii b).char := by
        intro hChar
        have hSame := congrArg Char.toNat hChar
        rw [toNat_char_ascii hc, toNat_char_ascii h] at hSame
        exact hEq (UInt8.toNat_inj.mp hSame)
      exact (bne_iff_ne.mpr hChar).trans (bne_iff_ne.mpr hEq).symm
  · intro g hWide c hc
    have hChar : g.char ≠ (ascii b).char := by
      intro hChar
      have hSame := congrArg Char.toNat hChar
      have hWideChar := hWide.char
      rw [toNat_char_ascii h] at hSame
      omega
    have hByte : c ≠ b := by
      rintro rfl
      exact absurd h (UInt8.not_lt.mpr (hWide.bytes c hc))
    exact (bne_iff_ne.mpr hChar).trans (bne_iff_ne.mpr hByte).symm

/-- A run of glyphs of some sort is a run of bytes of that sort. -/
theorem span_glyphs {p : Glyph → Bool} {q : UInt8 → Bool} (h : Sorts p q) (t : Text) :
    ofGlyphs ((glyphs t).takeWhile p) = t.takeWhile q ∧
      (glyphs t).dropWhile p = glyphs (t.dropWhile q) := by
  induction hn : t.length using Nat.strongRecOn generalizing t with
  | ind n ih =>
      cases t with
      | nil => simp [glyphs, ofGlyphs]
      | cons a t =>
          have hSort : ∀ b ∈ (first a t).bytes, p (first a t) = q b := by
            rcases first_spec a t with ⟨ha, hFirst⟩ | hWide
            · rw [hFirst]
              intro b hb
              rw [List.mem_singleton.mp hb]
              exact h.plain a ha
            · exact h.wide _ hWide
          obtain ⟨tail, rest, rfl, hBytes⟩ := bytes_first a t
          have hLess : rest.length < n := by
            rw [← hn, List.length_cons, List.length_append]
            omega
          obtain ⟨hTake, hDrop⟩ := ih rest.length hLess rest rfl
          have hRest : (tail ++ rest).drop ((first a (tail ++ rest)).bytes.length - 1) = rest := by
            simp [hBytes]
          rw [glyphs_cons, hRest]
          cases hp : p (first a (tail ++ rest)) with
          | true =>
              have hAll : ∀ b ∈ a :: tail, q b = true := by
                intro b hb
                rw [← hSort b (hBytes ▸ hb), hp]
              rw [List.takeWhile_cons_of_pos hp, List.dropWhile_cons_of_pos hp, hDrop, ofGlyphs,
                List.flatMap_cons, ← ofGlyphs, hTake, hBytes, ← List.cons_append,
                List.takeWhile_append_of_pos hAll, List.dropWhile_append_of_pos hAll]
              exact ⟨rfl, rfl⟩
          | false =>
              have ha : ¬ q a = true := by
                rw [← hSort a (by simp [hBytes]), hp]
                exact Bool.false_ne_true
              rw [List.takeWhile_cons_of_neg (by simp [hp]), List.dropWhile_cons_of_neg (by simp [hp]),
                List.takeWhile_cons_of_neg ha, List.dropWhile_cons_of_neg ha, glyphs_cons, hRest]
              exact ⟨rfl, rfl⟩

/-- Bytes of some sort, then one that is not of that sort, if any. -/
theorem span_glyphs_append {p : Glyph → Bool} {q : UInt8 → Bool} (h : Sorts p q) {s r : Text}
    (hs : ∀ b ∈ s, q b = true) (hr : ∀ b ∈ r.head?, q b = false) :
    ofGlyphs ((glyphs (s ++ r)).takeWhile p) = s ∧ (glyphs (s ++ r)).dropWhile p = glyphs r := by
  obtain ⟨hTake, hDrop⟩ := span_glyphs h (s ++ r)
  rw [hTake, hDrop, List.takeWhile_append_of_pos hs, List.dropWhile_append_of_pos hs]
  cases r with
  | nil => simp
  | cons b r =>
      have hb : ¬ q b = true := by simp [hr b rfl]
      rw [List.takeWhile_cons_of_neg hb, List.dropWhile_cons_of_neg hb, List.append_nil]
      exact ⟨rfl, rfl⟩

end Text
end Lox
