import Lox.Proofs.Lexing.Encoding
import Lox.Proofs.Lexing.Lexeme
import Lox.Token.Lexer

/-! How a source text is cut up. What a segment of each class can be is said in terms of bytes and
encoded characters alone; a text is then cut in one way only, the longest segment first, and this is
how it is scanned. -/
namespace Lox

namespace Segment

open Glyph Text

/-- The characters that begin a sign, a string or white space. -/
def openers : List Char :=
  ['(', ')', '{', '}', ',', '.', '-', '+', ';', '*', '!', '=', '<', '>', '/', ' ', '\r', '\t', '\n', '"']

/-- The segments of each class. -/
inductive Valid : Segment → Prop where
  | blank {b : UInt8} (h : b ∈ blanks) : Valid (.blank [b])
  | comment {t : Text} (h : newline ∉ t) : Valid (.comment (47 :: 47 :: t))
  | sign {k : Kind} {t : Text} (h : (k, t) ∈ Kind.signs) : Valid (.lexeme k t)
  | string {t : Text} (h : ∀ b ∈ t, b ≠ quote ∧ b ≠ newline) :
      Valid (.lexeme .string (quote :: (t ++ [quote])))
  | number {t : Text} (h : Decimal.IsNumeral t) : Valid (.lexeme .number t)
  | word {c : Char} {cs : List Char} (hBegins : beginsName c = true)
      (hContinues : ∀ d ∈ cs, continuesName d = true) :
      Valid (.lexeme (Kind.ofWord ((c :: cs).flatMap Text.ofChar)) ((c :: cs).flatMap Text.ofChar))
  | character {c : Char} (hOpener : c ∉ openers) (hDigit : isDigit c = false)
      (hName : beginsName c = false) : Valid (.unexpected (Text.ofChar c))
  | byte {b : UInt8} (h : 128 ≤ b) : Valid (.unexpected [b])
  | unterminated {t : Text} (h : ∀ b ∈ t, b ≠ quote ∧ b ≠ newline) (broken : Bool) :
      Valid (.unterminated (quote :: t) broken)

/-- The longest segment at the front of a text. -/
structure Leads (s : Segment) (t : Text) : Prop where
  valid : s.Valid
  front : s.text <+: t
  longest : ∀ other : Segment, other.Valid → other.text <+: t → other.text.length ≤ s.text.length

/-- A text cut into segments, each the longest where it stands. -/
inductive Cut : Text → List Segment → Prop where
  | nil : Cut [] []
  | cons {s : Segment} {rest : Text} {segments : List Segment} (hLeads : Leads s (s.text ++ rest))
      (hRest : Cut rest segments) : Cut (s.text ++ rest) (s :: segments)

/-- The first segment that is cut off is one of some class and has at least `n` bytes. -/
def Covers (n : Nat) (source : Text) : Prop :=
  ∃ s rest, ofText source = s :: ofText rest ∧ source = s.text ++ rest ∧ s.Valid ∧ n ≤ s.text.length

theorem Covers.mono {m n : Nat} {source : Text} (h : Covers n source) (hLess : m ≤ n) :
    Covers m source := by
  obtain ⟨s, rest, hFirst, hText, hValid, hLength⟩ := h
  exact ⟨s, rest, hFirst, hText, hValid, hLess.trans hLength⟩

theorem ofGlyphs_map_ofChar (cs : List Char) : ofGlyphs (cs.map Glyph.ofChar) = cs.flatMap Text.ofChar := by
  rw [ofGlyphs, List.flatMap_map]
  rfl

theorem ofChar_ne_nil (c : Char) : Text.ofChar c ≠ [] := by
  obtain ⟨a, tail, hBytes, _⟩ := exists_first_eq c
  simp [hBytes]

/-- No segment is empty. -/
theorem Valid.text_ne_nil {s : Segment} (h : s.Valid) : s.text ≠ [] := by
  have hSigns : ∀ entry ∈ Kind.signs, entry.2 ≠ [] := by decide
  cases h with
  | sign h => exact hSigns _ h
  | number h =>
      cases h with
      | whole h => exact h.1
      | point => simp [Segment.text]
  | word => simp [Segment.text, ofChar_ne_nil]
  | character => exact ofChar_ne_nil _
  | unterminated _ broken => cases broken <;> simp [Segment.text]
  | _ => simp [Segment.text]

/-- A sign that stands alone is cut off. -/
theorem covers_single {b : UInt8} {k : Kind} (hSign : (k, [b]) ∈ Kind.signs) (hb : b < 128)
    (hNext : ∀ rest, next (ascii b) rest = single k (ascii b) rest) (u : Text) : Covers 1 (b :: u) :=
  ⟨.lexeme k [b], u, ofText_single hb hNext u, rfl, .sign hSign, Nat.le_refl 1⟩

/-- A sign is cut off together with the equals sign after it. -/
theorem covers_joined {b : UInt8} {k joined : Kind} (hJoined : (joined, [b, 61]) ∈ Kind.signs)
    (hb : b < 128) (hNext : ∀ rest, next (ascii b) rest = withEqual k joined (ascii b) rest)
    (u : Text) : Covers 2 (b :: 61 :: u) :=
  ⟨.lexeme joined [b, 61], u, ofText_joined hb hNext u, rfl, .sign hJoined, Nat.le_refl 2⟩

/-- A sign that could be joined is cut off, joined or not. -/
theorem covers_alone {b : UInt8} {k joined : Kind} (hAlone : (k, [b]) ∈ Kind.signs)
    (hJoined : (joined, [b, 61]) ∈ Kind.signs) (hb : b < 128)
    (hNext : ∀ rest, next (ascii b) rest = withEqual k joined (ascii b) rest) (u : Text) :
    Covers 1 (b :: u) := by
  by_cases hEqual : u.head? = some 61
  · obtain ⟨u, rfl⟩ := List.head?_eq_some_iff.mp hEqual
    exact ⟨.lexeme joined [b, 61], u, ofText_joined hb hNext u, rfl, .sign hJoined, Nat.le_succ 1⟩
  · exact ⟨.lexeme k [b], u, ofText_alone hb hNext hEqual, rfl, .sign hAlone, Nat.le_refl 1⟩

theorem ne_newline_of_notMem {t : Text} (h : newline ∉ t) : ∀ b ∈ t, (b != newline) = true := by
  intro b hb
  rw [bne_iff_ne]
  rintro rfl
  exact h hb

/-- A comment is cut off up to the end of its line. -/
theorem covers_comment {t : Text} (h : newline ∉ t) (u : Text) :
    Covers (t.length + 2) (47 :: 47 :: (t ++ u)) := by
  refine ⟨_, _, ofText_comment (t ++ u), ?_, .comment ?_, ?_⟩
  · simp [Segment.text, List.takeWhile_append_dropWhile]
  · intro hMem
    simpa using List.mem_takeWhile_imp hMem
  · simp [Segment.text, List.takeWhile_append_of_pos (ne_newline_of_notMem h)]

theorem covers_slash (u : Text) : Covers 1 (47 :: u) := by
  by_cases hSlash : u.head? = some 47
  · obtain ⟨u, rfl⟩ := List.head?_eq_some_iff.mp hSlash
    exact (covers_comment (t := []) (by simp) u).mono (by simp)
  · exact ⟨.lexeme .slash [47], u, ofText_slash hSlash, rfl, .sign (by decide), Nat.le_refl 1⟩

/-- Every sign is cut off whole. -/
theorem covers_sign {k : Kind} {t : Text} (h : (k, t) ∈ Kind.signs) (u : Text) :
    Covers t.length (t ++ u) := by
  simp only [signs_eq, List.mem_cons, List.not_mem_nil, or_false, Prod.mk.injEq] at h
  rcases h with ⟨rfl, rfl⟩ | ⟨rfl, rfl⟩ | ⟨rfl, rfl⟩ | ⟨rfl, rfl⟩ | ⟨rfl, rfl⟩ | ⟨rfl, rfl⟩ |
    ⟨rfl, rfl⟩ | ⟨rfl, rfl⟩ | ⟨rfl, rfl⟩ | ⟨rfl, rfl⟩ | ⟨rfl, rfl⟩ | ⟨rfl, rfl⟩ | ⟨rfl, rfl⟩ |
    ⟨rfl, rfl⟩ | ⟨rfl, rfl⟩ | ⟨rfl, rfl⟩ | ⟨rfl, rfl⟩ | ⟨rfl, rfl⟩ | ⟨rfl, rfl⟩
  all_goals first
    | exact covers_slash u
    | exact covers_single (by decide) (by decide) (fun _ => rfl) u
    | exact covers_joined (by decide) (by decide) (fun _ => rfl) u
    | exact covers_alone (by decide) (by decide) (by decide) (fun _ => rfl) u

/-- A list begins with as many elements of a sort as there are. -/
theorem exists_run {α : Type} (p : α → Bool) (l : List α) :
    ∃ run rest, l = run ++ rest ∧ (∀ x ∈ run, p x = true) ∧ ∀ x ∈ rest.head?, p x = false := by
  refine ⟨l.takeWhile p, l.dropWhile p, List.takeWhile_append_dropWhile.symm,
    fun x hx => List.mem_takeWhile_imp hx, fun x hx => ?_⟩
  have hHead := List.head?_dropWhile_not p l
  rw [Option.mem_def.mp hx] at hHead
  exact hHead

/-- Whatever follows a quote, all that can stand inside a string is taken. -/
theorem covers_quote {t : Text} (h : ∀ b ∈ t, isInside b = true) (u : Text) :
    Covers (t.length + 1) (quote :: (t ++ u)) := by
  obtain ⟨run, rest, rfl, hRun, hRest⟩ := exists_run isInside u
  have hBody : ∀ b ∈ t ++ run, isInside b = true := List.forall_mem_append.mpr ⟨h, hRun⟩
  have hValid : ∀ b ∈ t ++ run, b ≠ quote ∧ b ≠ newline := fun b hb => isInside_iff.mp (hBody b hb)
  rw [← List.append_assoc]
  cases rest with
  | nil =>
      rw [List.append_nil]
      exact ⟨_, [], by rw [ofText_unclosed hBody, ofText_nil], by simp [Segment.text],
        .unterminated hValid false, by simp [Segment.text]⟩
  | cons b rest =>
      have hEnd : b = quote ∨ b = newline := by
        have hOutside := hRest b rfl
        rw [← Bool.not_eq_true, isInside_iff] at hOutside
        tauto
      rcases hEnd with rfl | rfl
      · refine ⟨_, rest, ofText_closed hBody rest, ?_, .string hValid, ?_⟩
        · simp [Segment.text]
        · simp [Segment.text]
      · refine ⟨_, rest, ofText_broken hBody rest, ?_, .unterminated hValid true, ?_⟩
        · simp [Segment.text]
        · simp [Segment.text]

/-- A string is cut off with both its quotes. -/
theorem covers_closed {t : Text} (h : ∀ b ∈ t, isInside b = true) (u : Text) :
    Covers (t.length + 2) (quote :: (t ++ quote :: u)) := by
  refine ⟨_, u, ofText_closed h u, ?_, .string fun b hb => isInside_iff.mp (h b hb), ?_⟩
  · simp [Segment.text]
  · simp [Segment.text]

/-- A string that is left open is cut off with the newline that ends it. -/
theorem covers_broken {t : Text} (h : ∀ b ∈ t, isInside b = true) (u : Text) :
    Covers (t.length + 2) (quote :: (t ++ newline :: u)) := by
  refine ⟨_, u, ofText_broken h u, ?_, .unterminated (fun b hb => isInside_iff.mp (h b hb)) true, ?_⟩
  · simp [Segment.text]
  · simp [Segment.text]

theorem isDigits_append {s t : Text} (hs : Decimal.IsDigits s)
    (ht : ∀ b ∈ t, Decimal.isDigit b = true) : Decimal.IsDigits (s ++ t) :=
  ⟨by simp [hs.1], List.forall_mem_append.mpr ⟨hs.2, ht⟩⟩

/-- A numeral is cut off with the digits behind its point. -/
theorem covers_point {s t : Text} (hs : Decimal.IsDigits s) (ht : Decimal.IsDigits t) (u : Text) :
    Covers (s ++ 46 :: t).length (s ++ 46 :: (t ++ u)) := by
  obtain ⟨run, rest, rfl, hRun, hRest⟩ := exists_run Decimal.isDigit u
  have hFraction := isDigits_append ht hRun
  rw [← List.append_assoc]
  refine ⟨_, rest, ofText_point hs hFraction hRest, ?_, .number (.point hs hFraction), ?_⟩
  · simp [Segment.text]
  · simp [Segment.text]

theorem covers_whole {s : Text} (hs : Decimal.IsDigits s) (u : Text) : Covers s.length (s ++ u) := by
  obtain ⟨run, rest, rfl, hRun, hRest⟩ := exists_run Decimal.isDigit u
  have hWhole := isDigits_append hs hRun
  rw [← List.append_assoc]
  by_cases hPoint : BeginsFraction rest
  · obtain ⟨d, r, rfl, hd⟩ := hPoint
    have hFraction : Decimal.IsDigits [d] := ⟨by simp, by simpa using hd⟩
    refine (covers_point hWhole hFraction r).mono ?_
    simp only [List.length_append]
    omega
  · refine ⟨_, rest, ofText_whole hWhole hRest hPoint, rfl, .number (.whole hWhole), ?_⟩
    simp [Segment.text]

/-- Every numeral is cut off whole. -/
theorem covers_number {t : Text} (h : Decimal.IsNumeral t) (u : Text) : Covers t.length (t ++ u) := by
  cases h with
  | whole h => exact covers_whole h u
  | point hWhole hFraction =>
      rw [List.append_assoc, List.cons_append]
      exact covers_point hWhole hFraction u

theorem isWhole_of_mem_map (cs : List Char) : ∀ g ∈ cs.map Glyph.ofChar, g.IsWhole := by
  intro g hg
  obtain ⟨c, _, rfl⟩ := List.mem_map.mp hg
  exact isWhole_ofChar c

theorem continuesName_of_mem_map {cs : List Char} (h : ∀ c ∈ cs, continuesName c = true) :
    ∀ g ∈ cs.map Glyph.ofChar, continuesName g.char = true := by
  intro g hg
  obtain ⟨c, hc, rfl⟩ := List.mem_map.mp hg
  exact h c hc

/-- No byte that stands alone is part of a name, so the glyphs of a name are encoded characters. -/
theorem exists_chars {t : Text} {gs : List Glyph} (hText : ∀ g ∈ gs, g ∈ glyphs t)
    (h : ∀ g ∈ gs, continuesName g.char = true) :
    ∃ cs : List Char, gs = cs.map Glyph.ofChar ∧ ∀ c ∈ cs, continuesName c = true := by
  have hStray : continuesName replacement = false := by decide +kernel
  have hEncoded : ∀ g ∈ gs, Glyph.ofChar g.char = g := by
    intro g hg
    rcases eq_ofChar_of_mem_glyphs (hText g hg) with hChar | ⟨b, _, rfl⟩
    · exact hChar.symm
    · exact absurd (h _ hg) (by simp [stray, hStray])
  refine ⟨gs.map (·.char), ?_, by simpa using h⟩
  rw [List.map_map]
  exact (List.map_congr_left hEncoded).symm ▸ (List.map_id gs).symm

/-- A word is cut off whole. -/
theorem covers_word {c : Char} {cs : List Char} (hBegins : beginsName c = true)
    (hContinues : ∀ d ∈ cs, continuesName d = true) (u : Text) :
    Covers ((c :: cs).flatMap Text.ofChar).length ((c :: cs).flatMap Text.ofChar ++ u) := by
  obtain ⟨run, more, hGlyphs, hRun, hMore⟩ := exists_run (fun g : Glyph => continuesName g.char) (glyphs u)
  obtain ⟨ds, rfl, hds⟩ := exists_chars (t := u) (fun g hg => by simp [hGlyphs, hg]) hRun
  have hRest : glyphs (ofGlyphs more) = more := glyphs_ofGlyphs_of_append hGlyphs
  have hu : u = ds.flatMap Text.ofChar ++ ofGlyphs more := by
    rw [← ofGlyphs_map_ofChar, ofGlyphs, ofGlyphs, ← List.flatMap_append, ← hGlyphs]
    exact (ofGlyphs_glyphs u).symm
  have hAll : ∀ d ∈ cs ++ ds, continuesName d = true := List.forall_mem_append.mpr ⟨hContinues, hds⟩
  have hWord := @ofText_word (Glyph.ofChar c) ((cs ++ ds).map Glyph.ofChar) hBegins
    (continuesName_of_mem_map hAll) (isWhole_of_mem_map (c :: (cs ++ ds))) (ofGlyphs more)
    (by rwa [hRest])
  rw [← List.map_cons, ofGlyphs_map_ofChar] at hWord
  have hText : (c :: cs).flatMap Text.ofChar ++ u =
      (c :: (cs ++ ds)).flatMap Text.ofChar ++ ofGlyphs more := by
    simp [hu]
  rw [hText]
  refine ⟨_, ofGlyphs more, hWord, rfl, .word hBegins hAll, ?_⟩
  simp [Segment.text]

/-- A character that begins nothing is a segment of its own. -/
theorem next_of_other {g : Glyph} (hOpener : g.char ∉ openers) (hDigit : isDigit g.char = false)
    (hName : beginsName g.char = false) (rest : List Glyph) :
    next g rest = (.unexpected g.bytes, rest) := by
  unfold next
  split
  case h_21 => rw [if_neg (by simp [hDigit]), if_neg (by simp [hName])]
  all_goals
    rename_i hChar
    exact absurd (by simp [hChar, openers]) hOpener

/-- A character that begins nothing is unexpected, whatever follows. -/
theorem ofText_character {c : Char} (hOpener : c ∉ openers) (hDigit : isDigit c = false)
    (hName : beginsName c = false) (u : Text) :
    ofText (Text.ofChar c ++ u) = .unexpected (Text.ofChar c) :: ofText u := by
  have hGlyphs : glyphs (Text.ofChar c ++ u) = Glyph.ofChar c :: glyphs u := isWhole_ofChar c u
  rw [ofText, hGlyphs, all_cons, next_of_other hOpener hDigit hName]
  rfl

/-- A byte that is no part of UTF-8 is unexpected on its own. -/
theorem ofText_stray {b : UInt8} {u : Text} (h : first b u = stray b) :
    ofText (b :: u) = .unexpected [b] :: ofText u := by
  have hNext (rest : List Glyph) : next (stray b) rest = (.unexpected [b], rest) := by
    apply next_of_other
    · exact show replacement ∉ openers by decide
    · exact show isDigit replacement = false by decide
    · exact show beginsName replacement = false by decide +kernel
  rw [ofText, glyphs_cons, h, all_cons, hNext]
  rfl

theorem exists_append_of_first {a : UInt8} {u : Text} {c : Char} (h : first a u = Glyph.ofChar c) :
    ∃ rest, a :: u = Text.ofChar c ++ rest := by
  obtain ⟨tail, rest, rfl, hBytes⟩ := bytes_first a u
  rw [h] at hBytes
  exact ⟨rest, by rw [← List.cons_append, ← hBytes]; rfl⟩

/-- A byte outside ASCII begins a word or something that begins no token. -/
theorem covers_byte {b : UInt8} (h : 128 ≤ b) (u : Text) : Covers 1 (b :: u) := by
  rcases first_eq b u with hChar | ⟨_, hStray⟩
  · obtain ⟨rest, hText⟩ := exists_append_of_first hChar
    have hWide : (first b u).IsWide := by
      rcases first_spec b u with ⟨hPlain, _⟩ | hWide
      · exact absurd hPlain (UInt8.not_lt.mpr h)
      · exact hWide
    have hOpeners : openers.all (fun c => 0 < c.toNat && c.toNat < 128) = true := by decide
    have hNat := hWide.char
    generalize (first b u).char = c at hNat hText
    rw [hText]
    by_cases hName : beginsName c = true
    · have hWord := @covers_word c [] hName (by simp) rest
      rw [List.flatMap_singleton] at hWord
      exact hWord.mono (List.length_pos_iff.mpr (ofChar_ne_nil c))
    · have hOpener : c ∉ openers := by
        intro hMem
        have hPlain := List.all_eq_true.mp hOpeners c hMem
        simp only [Bool.and_eq_true, decide_eq_true_eq] at hPlain
        omega
      have hDigit : isDigit c = false := by
        by_contra hDigit
        have := isDigit_iff.mp (Bool.eq_true_of_not_eq_false hDigit)
        omega
      have hName : beginsName c = false := Bool.eq_false_of_not_eq_true hName
      exact ⟨_, rest, ofText_character hOpener hDigit hName rest, rfl, .character hOpener hDigit hName,
        List.length_pos_iff.mpr (ofChar_ne_nil c)⟩
  · exact ⟨_, u, ofText_stray hStray, rfl, .byte h, Nat.le_refl 1⟩

/-- What is cut off is at least as long as any segment at the front. -/
theorem Valid.covers {s : Segment} (h : s.Valid) (u : Text) : Covers s.text.length (s.text ++ u) := by
  cases h with
  | @blank b h => exact ⟨_, u, ofText_blank h u, rfl, .blank h, Nat.le_refl 1⟩
  | comment h => exact covers_comment h u
  | sign h => exact covers_sign h u
  | @string t h =>
      have hText : Segment.text (.lexeme .string (quote :: (t ++ [quote]))) ++ u =
          quote :: (t ++ quote :: u) := by simp [Segment.text]
      rw [hText]
      simpa [Segment.text] using covers_closed (fun b hb => isInside_iff.mpr (h b hb)) u
  | number h => exact covers_number h u
  | word hBegins hContinues => exact covers_word hBegins hContinues u
  | character hOpener hDigit hName =>
      exact ⟨_, u, ofText_character hOpener hDigit hName u, rfl, .character hOpener hDigit hName,
        Nat.le_refl _⟩
  | byte h => exact covers_byte h u
  | @unterminated t h broken =>
      have hInside : ∀ b ∈ t, isInside b = true := fun b hb => isInside_iff.mpr (h b hb)
      cases broken with
      | false => exact covers_quote hInside u
      | true =>
          have hText : Segment.text (.unterminated (quote :: t) true) ++ u =
              quote :: (t ++ newline :: u) := by simp [Segment.text]
          rw [hText]
          simpa [Segment.text] using covers_broken hInside u

/-- Every character makes a segment of its own. -/
theorem exists_valid_ofChar (c : Char) : ∃ s : Segment, s.Valid ∧ s.text = Text.ofChar c := by
  by_cases hOpener : c ∈ openers
  · have hTable : openers.all (fun c => c == '"' || blanks.any ([·] == Text.ofChar c) ||
        Kind.signs.any (·.2 == Text.ofChar c)) = true := by
      decide +kernel
    have hEntry := List.all_eq_true.mp hTable c hOpener
    simp only [Bool.or_eq_true, beq_iff_eq, List.any_eq_true] at hEntry
    rcases hEntry with (rfl | ⟨b, hb, hText⟩) | ⟨⟨k, t⟩, hSign, hText⟩
    · exact ⟨.unterminated [quote] false, .unterminated (by simp) false, by decide⟩
    · exact ⟨.blank [b], .blank hb, hText⟩
    · exact ⟨.lexeme k t, .sign hSign, hText⟩
  by_cases hDigit : isDigit c = true
  · have hTable : ∀ n < 58, 48 ≤ n → Text.ofChar (Char.ofNat n) ≠ [] ∧
        ∀ b ∈ Text.ofChar (Char.ofNat n), Decimal.isDigit b = true := by
      decide +kernel
    have hRange := isDigit_iff.mp hDigit
    have hDigits : Decimal.IsDigits (Text.ofChar (Char.ofNat c.toNat)) :=
      hTable c.toNat (by omega) hRange.1
    rw [Char.ofNat_toNat] at hDigits
    exact ⟨.lexeme .number (Text.ofChar c), .number (.whole hDigits), rfl⟩
  by_cases hName : beginsName c = true
  · exact ⟨_, @Valid.word c [] hName (by simp), by simp [Segment.text]⟩
  · exact ⟨_, .character hOpener (by simpa using hDigit) (by simpa using hName), rfl⟩

/-- A text that is not empty begins with some segment. -/
theorem exists_valid {source : Text} (h : source ≠ []) : ∃ s : Segment, s.Valid ∧ s.text <+: source := by
  obtain ⟨a, u, rfl⟩ := List.exists_cons_of_ne_nil h
  rcases first_eq a u with hChar | ⟨hWide, _⟩
  · obtain ⟨rest, hSource⟩ := exists_append_of_first hChar
    obtain ⟨s, hValid, hText⟩ := exists_valid_ofChar (first a u).char
    exact ⟨s, hValid, rest, by rw [hText, hSource]⟩
  · exact ⟨.unexpected [a], .byte hWide, u, rfl⟩

theorem covers_of_ne_nil {source : Text} (h : source ≠ []) : Covers 0 source := by
  obtain ⟨s, hValid, u, rfl⟩ := exists_valid h
  exact (hValid.covers u).mono (Nat.zero_le _)

theorem Valid.lexeme {k : Kind} {t : Text} (h : Valid (.lexeme k t)) : Lexeme k t := by
  cases h with
  | sign h => exact .sign h
  | string h => exact .string h
  | number h => exact .number h
  | @word c cs hBegins hContinues =>
      have hWord := @Lexeme.word (Glyph.ofChar c) (cs.map Glyph.ofChar) hBegins
        (continuesName_of_mem_map hContinues) (isWhole_of_mem_map (c :: cs))
      rwa [← List.map_cons, ofGlyphs_map_ofChar] at hWord

/-- A segment is cut out of its own text. -/
theorem Valid.ofText_text {s : Segment} (h : s.Valid) : ofText s.text = [s] := by
  have hEmpty : Delimits [] := by simp [Delimits]
  cases s with
  | lexeme k t => simpa [ofText_nil, Segment.text] using h.lexeme.spells [] hEmpty
  | blank =>
      cases h with
      | blank h => rw [Segment.text, ofText_blank h, ofText_nil]
  | comment =>
      cases h with
      | comment h =>
          have hInside := ne_newline_of_notMem h
          rw [Segment.text, ofText_comment, List.takeWhile_eq_self_iff.mpr hInside,
            List.dropWhile_eq_nil_iff.mpr hInside, ofText_nil]
  | unexpected =>
      cases h with
      | character hOpener hDigit hName =>
          simpa [ofText_nil, Segment.text] using ofText_character hOpener hDigit hName []
      | @byte b h =>
          have hFirst : first b [] = stray b := by simp only [first, if_neg (UInt8.not_lt.mpr h)]
          rw [Segment.text, ofText_stray hFirst, ofText_nil]
  | unterminated _ broken =>
      cases h with
      | @unterminated t h =>
          have hInside : ∀ b ∈ t, isInside b = true := fun b hb => isInside_iff.mpr (h b hb)
          cases broken with
          | false => exact ofText_unclosed hInside
          | true => simpa [ofText_nil, Segment.text] using ofText_broken hInside []

/-- A text is a segment of one class only. -/
theorem Valid.eq_of_text {s s' : Segment} (h : s.Valid) (h' : s'.Valid) (hText : s.text = s'.text) :
    s = s' := by
  have hOfText := h.ofText_text
  rw [hText, h'.ofText_text] at hOfText
  exact (List.cons.inj hOfText).1.symm

/-- What is cut off first is the longest segment. -/
theorem leads_of_covers {source : Text} {s : Segment} {rest : Text}
    (hFirst : ofText source = s :: ofText rest) (hText : source = s.text ++ rest) (hValid : s.Valid) :
    Leads s source := by
  refine ⟨hValid, ⟨rest, hText.symm⟩, ?_⟩
  rintro other hOther ⟨u, rfl⟩
  obtain ⟨s', rest', hFirst', _, _, hLength⟩ := hOther.covers u
  rw [hFirst] at hFirst'
  rw [(List.cons.inj hFirst').1]
  exact hLength

/-- Scanning cuts a text into segments, each the longest where it stands. -/
theorem cut_ofText (source : Text) : Cut source (ofText source) := by
  induction hn : source.length using Nat.strongRecOn generalizing source with
  | ind n ih =>
      by_cases hEmpty : source = []
      · rw [hEmpty, ofText_nil]
        exact .nil
      · obtain ⟨s, rest, hFirst, hText, hValid, _⟩ := covers_of_ne_nil hEmpty
        have hLeads := leads_of_covers hFirst hText hValid
        have hLess : rest.length < n := by
          have := List.length_pos_iff.mpr hValid.text_ne_nil
          rw [← hn, hText, List.length_append]
          omega
        rw [hFirst]
        rw [hText] at hLeads ⊢
        exact .cons hLeads (ih rest.length hLess rest rfl)

/-- There is only one way to cut a text into longest segments. -/
theorem Cut.eq_ofText {source : Text} {segments : List Segment} (h : Cut source segments) :
    segments = ofText source := by
  induction h with
  | nil => exact ofText_nil.symm
  | @cons s rest segments hLeads _ ih =>
      obtain ⟨s', rest', hFirst, hText, hValid, hLength⟩ := hLeads.valid.covers rest
      have hSame : s'.text.length ≤ s.text.length := hLeads.longest s' hValid ⟨rest', hText.symm⟩
      obtain ⟨hFront, rfl⟩ := List.append_inj hText (Nat.le_antisymm hLength hSame)
      rw [hFirst, ih, hLeads.valid.eq_of_text hValid hFront]

theorem cut_iff {source : Text} {segments : List Segment} :
    Cut source segments ↔ segments = ofText source :=
  ⟨Cut.eq_ofText, fun h => h ▸ cut_ofText source⟩

/-- The segments make up the text. -/
theorem Cut.flatMap_text {source : Text} {segments : List Segment} (h : Cut source segments) :
    segments.flatMap Segment.text = source := by
  induction h with
  | nil => rfl
  | cons _ _ ih => rw [List.flatMap_cons, ih]

theorem Cut.valid {source : Text} {segments : List Segment} (h : Cut source segments) :
    ∀ s ∈ segments, s.Valid := by
  induction h with
  | nil => simp
  | cons hLeads _ ih => exact List.forall_mem_cons.mpr ⟨hLeads.valid, ih⟩

/-- Every lexeme that a text is cut into is spelled as its kind requires. -/
theorem lexeme_of_mem {source : Text} {k : Kind} {t : Text} (h : .lexeme k t ∈ ofText source) :
    Lexeme k t :=
  ((cut_ofText source).valid _ h).lexeme

/-- Each segment with the text before it, the first one after `before`. -/
def placed (before : Text) : List Segment → List (Text × Segment)
  | [] => []
  | s :: rest => (before, s) :: placed (before ++ s.text) rest

def lineAfter (before : Text) : Int := 1 + before.count newline

/-- The line of a segment is told by the newlines before it. -/
theorem located_lineAfter (before : Text) (segments : List Segment) :
    located (lineAfter before) segments =
      (placed before segments).map fun place => (lineAfter place.1, place.2) := by
  induction segments generalizing before with
  | nil => rfl
  | cons s segments ih =>
      have hLine : lineAfter before + s.newlines = lineAfter (before ++ s.text) := by
        simp only [lineAfter, newlines, List.count_append, Nat.cast_add]
        omega
      rw [located, placed, List.map_cons, hLine, ih]

def tokenAfter : Text × Segment → Option Token
  | (before, .lexeme k t) => some ⟨k, t, k.literal t, lineAfter before⟩
  | _ => none

/-- What is wrong with a segment after a text, if it is a bad one. -/
def diagnosticAfter : Text × Segment → Option Diagnostic
  | (before, .unexpected t) => some ⟨.lex, "unexpected character", lineAfter before, .lexeme t⟩
  | (before, .unterminated t _) => some ⟨.lex, "unterminated string", lineAfter before, .lexeme t⟩
  | _ => none

end Segment

/-- A source is cut in one way into segments, each the longest where it stands. The tokens are its
lexemes and the end of the input, the diagnostics its bad segments, each on the line it begins on. -/
theorem Scan.ofSource_cut (source : Text) :
    ∃ segments, (∀ other, Segment.Cut source other ↔ other = segments) ∧
      (∀ s ∈ segments, s.text ≠ []) ∧ segments.flatMap Segment.text = source ∧
      (ofSource source).tokens = (Segment.placed [] segments).filterMap Segment.tokenAfter ++
        [⟨.eof, [], none, Segment.lineAfter source⟩] ∧
      (ofSource source).diagnostics =
        (Segment.placed [] segments).filterMap Segment.diagnosticAfter := by
  have hCut := Segment.cut_ofText source
  have hLocated : Segment.located 1 (Segment.ofText source) = _ :=
    Segment.located_lineAfter [] (Segment.ofText source)
  have hToken : (token? ∘ fun place : Text × Segment => (Segment.lineAfter place.1, place.2)) =
      Segment.tokenAfter := by
    funext ⟨before, s⟩
    cases s <;> rfl
  have hDiagnostic : (diagnostic? ∘ fun place : Text × Segment => (Segment.lineAfter place.1, place.2)) =
      Segment.diagnosticAfter := by
    funext ⟨before, s⟩
    cases s <;> rfl
  refine ⟨Segment.ofText source, fun other => Segment.cut_iff,
    fun s hs => (hCut.valid s hs).text_ne_nil, hCut.flatMap_text, ?_, ?_⟩
  · simp only [ofSource, hLocated, List.filterMap_map, hToken]
    rfl
  · simp only [ofSource, hLocated, List.filterMap_map, hDiagnostic]

end Lox
