import Lox.Proofs.Lexing.Cutting
import Lox.Token.Lexer

/-! Texts and the tokens they spell. A printed text is put together from pieces each of which spells
some tokens, and where a piece ends a delimiter follows, so the text spells all of them. -/
namespace Lox

namespace Kind

/-- A word is a reserved word of its kind, or a name. -/
theorem ofWord_spec (word : Text) :
    (∃ entry ∈ keywords, Text.ofString entry.1 = word ∧ ofWord word = entry.2) ∨
      ofWord word = .identifier := by
  rw [ofWord]
  split
  next s k hFind =>
    have hSpelled := List.find?_some hFind
    exact Or.inl ⟨(s, k), List.mem_of_find?_eq_some hFind, by simpa using hSpelled, rfl⟩
  next => exact Or.inr rfl

/-- Every kind that is spelled in one way only, with its spelling. -/
def fixed : List (Kind × Text) := signs ++ keywords.map fun entry => (entry.2, Text.ofString entry.1)

end Kind

namespace Segment

open Glyph Text

theorem ofGlyphs_map_ascii (t : Text) : ofGlyphs (t.map ascii) = t := by
  induction t with
  | nil => rfl
  | cons b t ih =>
      rw [ofGlyphs] at ih
      rw [List.map_cons, ofGlyphs, List.flatMap_cons, ih]
      rfl

/-- A word of ASCII letters is a lexeme. -/
theorem lexeme_of_ascii {t : Text} (hBegins : beginsName (ascii (t.headD 48)).char = true)
    (hContinues : ∀ b ∈ t, b < 128 ∧ continuesName (ascii b).char = true) :
    Lexeme (Kind.ofWord t) t := by
  cases t with
  | nil => exact absurd hBegins (by decide)
  | cons b t =>
      have hWhole : ∀ g ∈ (b :: t).map ascii, g.IsWhole := by
        intro g hg
        obtain ⟨c, hc, rfl⟩ := List.mem_map.mp hg
        exact isWhole_ascii (hContinues c hc).1
      have hTail : ∀ g ∈ t.map ascii, continuesName g.char = true := by
        intro g hg
        obtain ⟨c, hc, rfl⟩ := List.mem_map.mp hg
        exact (hContinues c (by simp [hc])).2
      have hWord := @Lexeme.word (ascii b) (t.map ascii) hBegins hTail hWhole
      rwa [← List.map_cons, ofGlyphs_map_ascii] at hWord

/-- Every reserved word is a lexeme of its kind. -/
theorem lexeme_keyword {s : String} {k : Kind} (h : (s, k) ∈ Kind.keywords) :
    Lexeme k (Text.ofString s) := by
  have hTable : ∀ entry ∈ Kind.keywords,
      beginsName (ascii ((Text.ofString entry.1).headD 48)).char = true ∧
      (∀ b ∈ Text.ofString entry.1, b < 128 ∧ continuesName (ascii b).char = true) ∧
      Kind.ofWord (Text.ofString entry.1) = entry.2 := by
    decide +kernel
  obtain ⟨hBegins, hContinues, hKind⟩ := hTable (s, k) h
  have hLexeme := lexeme_of_ascii hBegins hContinues
  rwa [hKind] at hLexeme

/-- A lexeme of a kind with one spelling is that spelling. -/
theorem Lexeme.eq_of_fixed {k : Kind} {t t' : Text} (h : Lexeme k t)
    (hFixed : (k, t') ∈ Kind.fixed) : t = t' := by
  have hUnique : ∀ entry ∈ Kind.fixed, ∀ entry' ∈ Kind.fixed,
      entry.1 = entry'.1 → entry.2 = entry'.2 := by decide
  have hOther : ∀ entry ∈ Kind.fixed,
      entry.1 ≠ .string ∧ entry.1 ≠ .number ∧ entry.1 ≠ .identifier := by decide
  cases h with
  | sign h => exact hUnique _ (List.mem_append_left _ h) _ hFixed rfl
  | string => exact absurd rfl (hOther _ hFixed).1
  | number => exact absurd rfl (hOther _ hFixed).2.1
  | @word g gs =>
      rcases Kind.ofWord_spec (ofGlyphs (g :: gs)) with ⟨entry, hEntry, hText, hKind⟩ | hName
      · rw [← hText]
        have hMem : (entry.2, Text.ofString entry.1) ∈ Kind.fixed :=
          List.mem_append_right _ (List.mem_map.mpr ⟨entry, hEntry, rfl⟩)
        exact hUnique _ hMem _ hFixed hKind.symm
      · exact absurd hName (hOther _ hFixed).2.2

/-- A string has no quote and no newline between its quotes. -/
theorem Lexeme.exists_of_string {t : Text} (h : Lexeme .string t) :
    ∃ s, t = quote :: (s ++ [quote]) ∧ ∀ b ∈ s, b ≠ quote ∧ b ≠ newline := by
  generalize hKind : Kind.string = k at h
  cases h with
  | @sign _ _ hSign =>
      have hOther : ∀ entry ∈ Kind.signs, entry.1 ≠ .string := by decide
      exact absurd hKind.symm (hOther _ hSign)
  | @string s hInside => exact ⟨s, rfl, hInside⟩
  | number => cases hKind
  | @word g gs =>
      have hOther : ∀ entry ∈ Kind.keywords, entry.2 ≠ .string := by decide
      rcases Kind.ofWord_spec (ofGlyphs (g :: gs)) with ⟨entry, hEntry, _, hWord⟩ | hName
      · exact absurd (hWord.symm.trans hKind.symm) (hOther _ hEntry)
      · exact absurd (hKind.trans hName) (by decide)

end Segment

namespace Token

def unlined (t : Token) : Token := { t with line := 0 }

@[simp]
theorem kind_unlined (t : Token) : t.unlined.kind = t.kind := rfl

@[simp]
theorem lexeme_unlined (t : Token) : t.unlined.lexeme = t.lexeme := rfl

@[simp]
theorem literal_unlined (t : Token) : t.unlined.literal = t.literal := rfl

@[simp]
theorem line_unlined (t : Token) : t.unlined.line = 0 := rfl

@[simp]
theorem unlined_unlined (t : Token) : t.unlined.unlined = t.unlined := rfl

@[simp]
theorem unlined_read (k : Kind) (t : Text) (line : Int) :
    (Token.read k t line).unlined = Token.read k t 0 := rfl

/-- A token as scanning gives it: its spelling is one of its kind, and its value is that of the
spelling. -/
structure IsScanned (t : Token) : Prop where
  lexeme : Segment.Lexeme t.kind t.lexeme
  literal : t.literal = t.kind.literal t.lexeme

/-- Apart from its line a scanned token is told by its kind and lexeme. -/
theorem IsScanned.unlined_eq {t : Token} (h : t.IsScanned) :
    t.unlined = Token.read t.kind t.lexeme 0 := by
  rw [unlined, Token.read, h.literal]

end Token

namespace Segment

/-- The tokens that segments spell, all of them on line 0. -/
def words (segments : List Segment) : List Token :=
  segments.filterMap fun
    | .lexeme k t => some (Token.read k t 0)
    | _ => none

theorem words_cons_lexeme (k : Kind) (t : Text) (segments : List Segment) :
    words (.lexeme k t :: segments) = Token.read k t 0 :: words segments := rfl

def IsGood (s : Segment) : Prop := ∀ line, Scan.diagnostic? (line, s) = none

/-- Apart from their lines the tokens of a source are the words of its segments. -/
theorem map_unlined_located (line : Int) (segments : List Segment) :
    ((located line segments).filterMap Scan.token?).map Token.unlined = words segments := by
  induction segments generalizing line with
  | nil => rfl
  | cons s segments ih =>
      cases s <;> simp_all [located, words, Scan.token?, List.filterMap_cons]

/-- Nothing is reported if nothing is wrong with any segment. -/
theorem diagnostics_located {segments : List Segment} (h : ∀ s ∈ segments, s.IsGood) (line : Int) :
    (located line segments).filterMap Scan.diagnostic? = [] := by
  induction segments generalizing line with
  | nil => rfl
  | cons s segments ih =>
      rw [located, List.filterMap_cons, h s (by simp) line]
      exact ih (fun s' hs' => h s' (by simp [hs'])) _

theorem mem_of_mem_located {line line' : Int} {s : Segment} {segments : List Segment}
    (h : (line', s) ∈ located line segments) : s ∈ segments := by
  induction segments generalizing line with
  | nil => simp [located] at h
  | cons s' segments ih =>
      rw [located, List.mem_cons] at h
      rcases h with hHead | hTail
      · cases hHead
        simp
      · exact List.mem_cons_of_mem _ (ih hTail)

/-- Before a delimiter the text spells the tokens and nothing else. -/
def Prints (t : Text) (w : List Token) : Prop :=
  ∃ segments, (∀ s ∈ segments, s.IsGood) ∧ words segments = w ∧
    ∀ rest, Delimits rest → ofText (t ++ rest) = segments ++ ofText rest

/-- Before nothing the text spells the tokens as well. -/
theorem Prints.ofText_spec {t : Text} {w : List Token} (h : Prints t w) :
    (∀ s ∈ ofText t, s.IsGood) ∧ words (ofText t) = w := by
  obtain ⟨segments, hGood, rfl, hText⟩ := h
  have hAlone := hText [] (by simp [Delimits])
  rw [List.append_nil, ofText_nil, List.append_nil] at hAlone
  rw [hAlone]
  exact ⟨hGood, rfl⟩

def Begins (t : Text) : Prop := ∃ b ∈ delimiters, t.head? = some b

theorem Begins.append {s : Text} (h : Begins s) (t : Text) : Begins (s ++ t) := by
  obtain ⟨b, hb, hHead⟩ := h
  exact ⟨b, hb, by simp [hHead]⟩

theorem Begins.delimits {t : Text} (h : Begins t) : Delimits t := by
  obtain ⟨b, hb, hHead⟩ := h
  intro b' hb'
  rw [hHead, Option.mem_def, Option.some.injEq] at hb'
  exact hb' ▸ hb

theorem begins_cons {b : UInt8} (h : b ∈ delimiters) (t : Text) : Begins (b :: t) := ⟨b, h, rfl⟩

theorem prints_nil : Prints [] [] := ⟨[], by simp, rfl, fun _ _ => rfl⟩

/-- Texts can be put together where the second one begins with a delimiter. -/
theorem Prints.append {s t : Text} {v w : List Token} (hs : Prints s v) (hBegins : Begins t)
    (ht : Prints t w) : Prints (s ++ t) (v ++ w) := by
  obtain ⟨segments, hGood, rfl, hText⟩ := hs
  obtain ⟨segments', hGood', rfl, hText'⟩ := ht
  refine ⟨segments ++ segments', ?_, by simp [words], fun rest hRest => ?_⟩
  · intro s hs
    exact (List.mem_append.mp hs).elim (hGood s) (hGood' s)
  · rw [List.append_assoc, hText _ (hBegins.append rest).delimits, hText' rest hRest,
      List.append_assoc]

/-- A segment in front of a text, which it is cut from whatever the text is. -/
theorem Prints.cons (s : Text) (segment : Segment) {t : Text} {w : List Token} (ht : Prints t w)
    (hGood : segment.IsGood)
    (hText : ∀ rest, ofText (s ++ (t ++ rest)) = segment :: ofText (t ++ rest)) :
    Prints (s ++ t) (words [segment] ++ w) := by
  obtain ⟨segments, hGood', rfl, hText'⟩ := ht
  refine ⟨segment :: segments, by simpa using ⟨hGood, hGood'⟩, ?_, fun rest hRest => ?_⟩
  · rw [words, ← List.singleton_append, List.filterMap_append]
    rfl
  · rw [List.append_assoc, hText, hText' rest hRest, List.cons_append]

/-- A lexeme spells its own token. -/
theorem prints_lexeme {k : Kind} {t : Text} (h : Lexeme k t) : Prints t [Token.read k t 0] :=
  ⟨[.lexeme k t], by simp [IsGood, Scan.diagnostic?], rfl, fun rest hRest => h.spells rest hRest⟩

/-- A blank spells no token. -/
theorem Prints.blank {t : Text} {w : List Token} (h : Prints t w) : Prints (32 :: t) w :=
  h.cons [32] (.blank [32]) (fun _ => rfl) fun _ => ofText_blank (by decide) _

theorem Prints.newline {t : Text} {w : List Token} (h : Prints t w) : Prints (10 :: t) w :=
  h.cons [10] (.blank [10]) (fun _ => rfl) fun _ => ofText_blank (by decide) _

/-- The signs that nothing after them can change. -/
def firmSigns : List (UInt8 × Kind) :=
  [(40, .leftParen), (41, .rightParen), (123, .leftBrace), (125, .rightBrace), (59, .semicolon),
   (45, .minus)]

/-- A sign that nothing can change may stand before any text. -/
theorem Prints.firm {b : UInt8} {k : Kind} (hSign : (b, k) ∈ firmSigns) {t : Text}
    {w : List Token} (h : Prints t w) : Prints (b :: t) (Token.read k [b] 0 :: w) := by
  refine h.cons [b] (.lexeme k [b]) (fun _ => rfl) fun rest => ?_
  simp only [firmSigns, List.mem_cons, List.not_mem_nil, or_false, Prod.mk.injEq] at hSign
  rcases hSign with ⟨rfl, rfl⟩ | ⟨rfl, rfl⟩ | ⟨rfl, rfl⟩ | ⟨rfl, rfl⟩ | ⟨rfl, rfl⟩ | ⟨rfl, rfl⟩ <;>
    exact ofText_single (by decide) (fun _ => rfl) _

/-- A text that begins with an equals sign spells a token of one of two kinds first. -/
theorem ofText_equal (rest : Text) :
    ∃ k t segments, (k = .equal ∨ k = .equalEqual) ∧
      ofText (61 :: rest) = .lexeme k t :: segments := by
  cases hHead : rest.head? with
  | none =>
      have hSign := @ofText_sign .equal [61] rest (by decide) (by simp [hHead]) (by simp [hHead])
      exact ⟨_, _, _, Or.inl rfl, hSign⟩
  | some b =>
      by_cases hb : b = 61
      · obtain ⟨rest', rfl⟩ := List.head?_eq_some_iff.mp (hb ▸ hHead)
        exact ⟨_, _, _, Or.inr rfl, ofText_joined (by decide) (fun _ => rfl) rest'⟩
      · have hSign := @ofText_alone 61 .equal .equalEqual (by decide) (fun _ => rfl) rest
          (by simpa [hHead] using hb)
        exact ⟨_, _, _, Or.inl rfl, hSign⟩

/-- What a text begins with whose first token is not an equals sign. -/
theorem Prints.head_ne {t : Text} {w : List Token} {first : Token} (h : Prints t (first :: w))
    (hKind : first.kind ≠ .equal ∧ first.kind ≠ .equalEqual) :
    ∃ b t', t = b :: t' ∧ b ≠ 61 := by
  have hWords := h.ofText_spec.2
  cases t with
  | nil => simp [ofText_nil, words] at hWords
  | cons b t =>
      refine ⟨b, t, rfl, ?_⟩
      rintro rfl
      obtain ⟨k, t', more, hEqual, hFirst⟩ := ofText_equal t
      rw [hFirst, words_cons_lexeme, List.cons.injEq] at hWords
      rw [← hWords.1] at hKind
      exact hEqual.elim hKind.1 hKind.2

/-- A `!` may stand before a text that does not begin with an equals sign. -/
theorem Prints.bang {t : Text} {w : List Token} {first : Token} (h : Prints t (first :: w))
    (hKind : first.kind ≠ .equal ∧ first.kind ≠ .equalEqual) :
    Prints (33 :: t) (Token.read .bang [33] 0 :: first :: w) := by
  obtain ⟨b, t', rfl, hb⟩ := h.head_ne hKind
  refine h.cons [33] (.lexeme .bang [33]) (fun _ => rfl) fun rest => ?_
  exact @ofText_alone 33 .bang .bangEqual (by decide) (fun _ => rfl) _ (by simpa using hb)

end Segment

namespace Scan

/-- Every token that a source is read as is a scanned one, apart from the end of the input. -/
theorem isScanned_of_mem {source : Text} {t : Token}
    (h : t ∈ (Segment.located 1 (Segment.ofText source)).filterMap token?) : t.IsScanned := by
  obtain ⟨⟨line, s⟩, hMem, hToken⟩ := List.mem_filterMap.mp h
  have hSegment := Segment.mem_of_mem_located hMem
  cases s with
  | lexeme k text =>
      cases hToken
      exact ⟨Segment.lexeme_of_mem hSegment, rfl⟩
  | _ => cases hToken

/-- A text that spells tokens is read as these tokens, and nothing is wrong with it. -/
theorem ofSource_of_prints {text : Text} {w : List Token} (h : Segment.Prints text w) :
    (ofSource text).diagnostics = [] ∧
      ∃ w' last, (ofSource text).tokens = w' ++ [Token.endOfInput last] ∧
        w'.map Token.unlined = w := by
  obtain ⟨hGood, rfl⟩ := h.ofText_spec
  exact ⟨Segment.diagnostics_located hGood 1, _, _, rfl, Segment.map_unlined_located 1 _⟩

end Scan
end Lox
