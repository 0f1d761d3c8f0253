import Lox.Proofs.Grammar.Tracking
import Lox.Proofs.Lexing.Cutting

/-! Two sources one after the other, with a newline between them. No segment reaches across it, so
that each source is scanned as it is on its own, the second one on later lines. -/
namespace Lox

namespace Segment

open Glyph Text

/-- The bytes by which lines, strings and comments are told apart. -/
def marks : List UInt8 := [newline, quote, 47]

/-- The segments that have a newline, a quote or a slash. -/
inductive Marked : Segment → Prop where
  | newline : Marked (.blank [newline])
  | slash : Marked (.lexeme .slash [47])
  | comment {t : Text} (h : Text.newline ∉ t) : Marked (.comment (47 :: 47 :: t))
  | string {t : Text} (h : ∀ b ∈ t, b ≠ quote ∧ b ≠ Text.newline) :
      Marked (.lexeme .string (quote :: (t ++ [quote])))
  | unterminated {t : Text} (h : ∀ b ∈ t, b ≠ quote ∧ b ≠ Text.newline) (broken : Bool) :
      Marked (.unterminated (quote :: t) broken)

theorem eq_of_mem_ofChar {c : Char} {b : UInt8} (hb : b < 128) (h : b ∈ Text.ofChar c) :
    c = (ascii b).char := by
  obtain ⟨a, tail, hBytes, hFirst⟩ := exists_first_eq c
  have hChar := hFirst []
  rw [List.append_nil] at hChar
  rcases first_spec a tail with ⟨_, hAscii⟩ | hWide
  · rw [hAscii] at hChar
    have hText : [a] = Text.ofChar c := congrArg Glyph.bytes hChar
    rw [← hText, List.mem_singleton] at h
    subst h
    exact (congrArg Glyph.char hChar).symm
  · rw [hChar] at hWide
    exact absurd (hWide.bytes b h) (UInt8.not_le.mpr hb)

/-- Only some segments have a newline, a quote or a slash. -/
theorem Valid.marked {s : Segment} (h : s.Valid) {b : UInt8} (hb : b ∈ marks) (hMem : b ∈ s.text) :
    s.Marked := by
  have hPlain : ∀ b ∈ marks, b < 128 := by decide +kernel
  have hNumber : ∀ b ∈ marks, Decimal.isDigit b = false ∧ b ≠ 46 := by decide +kernel
  have hOther : ∀ b ∈ marks, continuesName (ascii b).char = false ∧ (ascii b).char ∈ openers := by
    decide +kernel
  have hBlanks : ∀ b ∈ marks, b ∈ blanks → b = newline := by decide +kernel
  have hSigns : ∀ b ∈ marks, ∀ entry ∈ Kind.signs, b ∈ entry.2 → entry = (.slash, [47]) := by
    decide +kernel
  have hDigits {t : Text} (h : Decimal.IsDigits t) : b ∉ t :=
    fun hIn => absurd (h.2 b hIn) (by simp [hNumber b hb])
  cases h with
  | @blank c h =>
      obtain rfl : b = c := List.mem_singleton.mp hMem
      rw [hBlanks b hb h]
      exact .newline
  | comment h => exact .comment h
  | sign h =>
      obtain ⟨rfl, rfl⟩ := Prod.mk.inj (hSigns b hb _ h hMem)
      exact .slash
  | string h => exact .string h
  | number h =>
      cases h with
      | whole h => exact absurd hMem (hDigits h)
      | point hWhole hFraction =>
          rcases List.mem_append.mp hMem with hIn | hIn
          · exact absurd hIn (hDigits hWhole)
          · rcases List.mem_cons.mp hIn with hPoint | hIn
            · exact absurd hPoint (hNumber b hb).2
            · exact absurd hIn (hDigits hFraction)
  | @word c cs hBegins hContinues =>
      obtain ⟨d, hd, hIn⟩ := List.mem_flatMap.mp hMem
      have hName : continuesName d = true := by
        rcases List.mem_cons.mp hd with rfl | hd
        · rw [continuesName, hBegins, Bool.true_or]
        · exact hContinues d hd
      rw [eq_of_mem_ofChar (hPlain b hb) hIn, (hOther b hb).1] at hName
      cases hName
  | character hOpener =>
      rw [eq_of_mem_ofChar (hPlain b hb) hMem] at hOpener
      exact absurd (hOther b hb).2 hOpener
  | @byte c h =>
      obtain rfl : b = c := List.mem_singleton.mp hMem
      exact absurd h (UInt8.not_le.mpr (hPlain b hb))
  | unterminated h broken => exact .unterminated h broken

/-- A segment has a newline only if it is one, or if it is a string that the newline cut short. -/
theorem Valid.eq_of_newline_mem {s : Segment} (h : s.Valid) (hMem : newline ∈ s.text) :
    s = .blank [newline] ∨ ∃ t, newline ∉ t ∧ s = .unterminated t true := by
  have hSlash : newline ≠ 47 := by decide
  have hQuote : newline ≠ quote := by decide
  cases h.marked (by decide) hMem with
  | newline => exact Or.inl rfl
  | slash => exact absurd (List.mem_singleton.mp hMem) hSlash
  | comment hLine => exact absurd hMem (by simp [Segment.text, hSlash, hLine])
  | @string t hInside =>
      have hLine : newline ∉ t := fun hIn => (hInside _ hIn).2 rfl
      exact absurd hMem (by simp [Segment.text, hQuote, hLine])
  | @unterminated t hInside broken =>
      have hLine : newline ∉ quote :: t := by
        rw [List.mem_cons, not_or]
        exact ⟨hQuote, fun hIn => (hInside _ hIn).2 rfl⟩
      cases broken with
      | false => exact absurd hMem hLine
      | true => exact Or.inr ⟨quote :: t, hLine, rfl⟩

/-- The segments of a text, and those of the same text with a newline after it. The newline is white
space, unless it cuts short a string that was left open at the end. -/
inductive EndsLine : List Segment → List Segment → Prop
  | white : EndsLine [] [.blank [newline]]
  | broken (t : Text) : EndsLine [.unterminated t false] [.unterminated t true]
  | cons (s : Segment) {segments segments' : List Segment} (h : EndsLine segments segments') :
      EndsLine (s :: segments) (s :: segments')

/-- A segment that takes all of a text and the newline after it is a string that was left open. -/
theorem Valid.eq_broken {s : Segment} (h : s.Valid) {t : Text} (hText : t ≠ [])
    (hNewline : t ++ [newline] <+: s.text) : s = .unterminated t true := by
  have hMem : newline ∈ s.text := hNewline.subset (List.mem_append_right t List.mem_cons_self)
  rcases h.eq_of_newline_mem hMem with rfl | ⟨u, hInside, rfl⟩
  · have hLength := hNewline.length_le
    rw [List.length_append] at hLength
    exact absurd (List.length_eq_zero_iff.mp (Nat.le_zero.mp (Nat.le_of_add_le_add_right hLength))) hText
  · rcases List.prefix_concat_iff.mp hNewline with hSame | hFront
    · rw [List.append_cancel_right hSame]
    · exact absurd (hFront.subset (List.mem_append_right t List.mem_cons_self)) hInside

/-- A newline does not make the first segment longer, unless it is a string that is left open. -/
theorem Leads.append_newline {s : Segment} {t : Text} (h : Leads s t) (b : Text)
    (hClosed : s ≠ .unterminated t false) : Leads s (t ++ newline :: b) := by
  refine ⟨h.valid, h.front.trans (List.prefix_append t _), fun other hOther hFront => ?_⟩
  by_cases hLength : other.text.length ≤ t.length
  · exact h.longest other hOther
      (List.prefix_of_prefix_length_le hFront (List.prefix_append t _) hLength)
  · exfalso
    have hWithin : t ++ [newline] <+: t ++ newline :: b := ⟨b, by simp⟩
    have hNewline : t ++ [newline] <+: other.text :=
      List.prefix_of_prefix_length_le hWithin hFront (by simpa using hLength)
    have hText : t ≠ [] := fun hNil =>
      h.valid.text_ne_nil (List.prefix_nil.mp (hNil ▸ h.front))
    obtain rfl := hOther.eq_broken hText hNewline
    -- then the text is an open string on its own, and the first segment takes all of it
    have hOpen : Valid (.unterminated t false) := by
      cases hOther with
      | unterminated hInside _ => exact .unterminated hInside false
    refine hClosed (h.valid.eq_of_text hOpen ?_)
    exact h.front.eq_of_length_le (h.longest _ hOpen List.prefix_rfl)

/-- A string that is left open is the longest segment up to a newline. -/
theorem leads_broken {t : Text} (h : Valid (.unterminated t false)) (b : Text) :
    Leads (.unterminated t true) (t ++ newline :: b) := by
  cases h with
  | @unterminated t hInside =>
      have hBroken := ofText_broken (fun c hc => isInside_iff.mpr (hInside c hc)) b
      refine leads_of_covers hBroken ?_ (.unterminated hInside true)
      simp [Segment.text]

/-- A text is cut as before when a newline and another text are put after it. -/
theorem Cut.exists_endsLine {a : Text} {segments : List Segment} (h : Cut a segments) (b : Text) :
    ∃ segments', EndsLine segments segments' ∧ Cut (a ++ newline :: b) (segments' ++ ofText b) := by
  induction h with
  | nil =>
      have hBlank : newline ∈ blanks := by decide
      exact ⟨_, .white, .cons (leads_of_covers (ofText_blank hBlank b) rfl (.blank hBlank))
        (cut_ofText b)⟩
  | @cons s rest segments hLeads hRest ih =>
      by_cases hOpen : s = .unterminated (s.text ++ rest) false
      · obtain rfl : rest = [] := by
          have hText := congrArg Segment.text hOpen
          simpa [Segment.text] using hText
        rw [List.append_nil] at hOpen hLeads ⊢
        rw [hRest.eq_ofText, ofText_nil]
        generalize s.text = t at hOpen hLeads
        subst hOpen
        have hText : Segment.text (.unterminated t true) ++ b = t ++ newline :: b := by
          simp [Segment.text]
        have hBroken := leads_broken hLeads.valid b
        rw [← hText] at hBroken ⊢
        exact ⟨[.unterminated t true], .broken t, .cons hBroken (cut_ofText b)⟩
      · obtain ⟨segments', hEnds, hCut⟩ := ih
        have hFirst := hLeads.append_newline b hOpen
        rw [List.append_assoc] at hFirst ⊢
        exact ⟨s :: segments', .cons s hEnds, .cons hFirst hCut⟩

/-- Later segments are on lines that the earlier ones count up to. -/
theorem located_append (line : Int) (segments segments' : List Segment) :
    located line (segments ++ segments') = located line segments ++
      located (line + (segments.flatMap Segment.text).count newline) segments' := by
  induction segments generalizing line with
  | nil => simp [located]
  | cons s segments ih =>
      rw [List.cons_append, located, located, ih, List.cons_append, newlines, List.flatMap_cons,
        List.count_append, Nat.cast_add, Int.add_assoc]

/-- Segments are so many lines further down if they begin so many lines further down. -/
theorem located_add (line k : Int) (segments : List Segment) :
    located (line + k) segments =
      (located line segments).map fun place => (place.1 + k, place.2) := by
  induction segments generalizing line with
  | nil => rfl
  | cons s segments ih =>
      rw [located, located, List.map_cons, ← ih, Int.add_right_comm]

end Segment

def Diagnostic.relined (f : Int → Int) (d : Diagnostic) : Diagnostic := { d with line := f d.line }

namespace Scan

open Segment Text

/-- The token of a segment on another line is on that line. -/
theorem token?_relined (f : Int → Int) (place : Int × Segment) :
    token? (f place.1, place.2) = (token? place).map (Token.relined f) := by
  obtain ⟨line, s⟩ := place
  cases s <;> rfl

theorem diagnostic?_relined (f : Int → Int) (place : Int × Segment) :
    diagnostic? (f place.1, place.2) = (diagnostic? place).map (Diagnostic.relined f) := by
  obtain ⟨line, s⟩ := place
  cases s <;> rfl

/-- The tokens and the diagnostics are those of the text without the newline. -/
theorem filterMap_endsLine {segments segments' : List Segment} (h : EndsLine segments segments')
    (line : Int) :
    (located line segments').filterMap token? = (located line segments).filterMap token? ∧
      (located line segments').filterMap diagnostic? =
        (located line segments).filterMap diagnostic? := by
  induction h generalizing line with
  | white => exact ⟨rfl, rfl⟩
  | broken t => exact ⟨rfl, rfl⟩
  | cons s _ ih =>
      obtain ⟨hTokens, hDiagnostics⟩ := ih (line + s.newlines)
      simp only [located, List.filterMap_cons, hTokens, hDiagnostics, and_self]

/-- The tokens of a source without its end. -/
def lexemes (source : Text) : List Token := (located 1 (ofText source)).filterMap token?

/-- The tokens of a source are its lexemes and its end. -/
theorem tokens_ofSource (source : Text) :
    (ofSource source).tokens = lexemes source ++ [Token.endOfInput (lastLine source)] := rfl

/-- The lines of two texts are added. -/
theorem lastLine_newline (a b : Text) : lastLine (a ++ newline :: b) = lastLine b + lastLine a := by
  simp only [lastLine, List.count_append, List.count_cons_self, Nat.cast_add, Nat.cast_one]
  omega

/-- Text before a newline is cut into segments apart from what follows. -/
theorem located_newline (a b : Text) : ∃ segments, EndsLine (ofText a) segments ∧
    located 1 (ofText (a ++ newline :: b)) = located 1 segments ++
      (located 1 (ofText b)).map fun place => (place.1 + lastLine a, place.2) := by
  obtain ⟨segments, hEnds, hCut⟩ := (cut_ofText a).exists_endsLine b
  have hText : segments.flatMap Segment.text = a ++ [newline] := by
    have hWhole := hCut.flatMap_text
    rw [List.flatMap_append, (cut_ofText b).flatMap_text, ← List.singleton_append,
      ← List.append_assoc] at hWhole
    exact List.append_cancel_right hWhole
  have hLine : (1 : Int) + (a ++ [newline]).count newline = 1 + lastLine a := by
    simp [lastLine, Int.add_comm]
  refine ⟨segments, hEnds, ?_⟩
  rw [← hCut.eq_ofText, located_append, hText, hLine, located_add]

/-- Of two sources with a newline between them, the tokens are those of the one and then those of
the other. -/
theorem lexemes_newline (a b : Text) : lexemes (a ++ newline :: b) =
    lexemes a ++ (lexemes b).map (Token.relined (· + lastLine a)) := by
  obtain ⟨segments, hEnds, hLocated⟩ := located_newline a b
  rw [lexemes, hLocated, List.filterMap_append, (filterMap_endsLine hEnds 1).1, List.filterMap_map,
    lexemes, lexemes, List.map_filterMap]
  congr 2
  funext place
  exact token?_relined (· + lastLine a) place

/-- Scanning reports on two texts one after the other. -/
theorem diagnostics_newline (a b : Text) : (ofSource (a ++ newline :: b)).diagnostics =
    (ofSource a).diagnostics ++
      (ofSource b).diagnostics.map (Diagnostic.relined (· + lastLine a)) := by
  obtain ⟨segments, hEnds, hLocated⟩ := located_newline a b
  rw [ofSource, ofSource, ofSource]
  dsimp only
  rw [hLocated, List.filterMap_append, (filterMap_endsLine hEnds 1).2, List.filterMap_map,
    List.map_filterMap]
  congr 2
  funext place
  exact diagnostic?_relined (· + lastLine a) place

/-- Scanning goes line by line. Wherever a source ends, in a comment, in a string that is left open or
within a character, a newline after it ends that as the end of the input does: what follows is scanned
as on its own, on later lines. -/
theorem ofSource_line_by_line (a b : Text) :
    (ofSource a).tokens.getLast? = some (Token.endOfInput (1 + a.count newline)) ∧
      (ofSource (a ++ newline :: b)).tokens = (ofSource a).tokens.dropLast ++
        (ofSource b).tokens.map (Token.relined (· + (1 + a.count newline))) ∧
      (ofSource (a ++ newline :: b)).diagnostics = (ofSource a).diagnostics ++
        (ofSource b).diagnostics.map (Diagnostic.relined (· + (1 + a.count newline))) := by
  refine ⟨?_, ?_, diagnostics_newline a b⟩
  · rw [tokens_ofSource, List.getLast?_concat, lastLine]
  · have hEnd : Token.endOfInput (lastLine (a ++ newline :: b)) =
        (Token.endOfInput (lastLine b)).relined (· + lastLine a) := by
      rw [lastLine_newline]
      rfl
    rw [tokens_ofSource, tokens_ofSource a, tokens_ofSource b, List.dropLast_concat, lexemes_newline,
      hEnd, List.append_assoc, List.map_append]
    rfl

end Scan
end Lox
