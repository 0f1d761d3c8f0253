import Lox.Proofs.Format.Expr
import Lox.Proofs.Grammar.Joining

/-! Lexemes set apart by blanks. Whatever stood around a lexeme in its source, it is recognised again
where a blank follows it, so that the lexemes of a source on one line are read as its tokens. -/
namespace Lox

open Text (newline quote)

namespace Segment

/-- A lexeme on its own is cut into itself. -/
theorem Lexeme.ofText_eq {k : Kind} {t : Text} (h : Lexeme k t) : ofText t = [.lexeme k t] := by
  have hSpelled := h.spells [] (by simp [Delimits])
  rwa [List.append_nil, ofText_nil] at hSpelled

/-- No text is a lexeme of two kinds. -/
theorem Lexeme.kind_eq {k k' : Kind} {t : Text} (h : Lexeme k t) (h' : Lexeme k' t) : k = k' := by
  have hSame := h.ofText_eq.symm.trans h'.ofText_eq
  simpa using hSame

/-- A lexeme is on one line. -/
theorem Lexeme.newline_notMem {k : Kind} {t : Text} (h : Lexeme k t) : newline ∉ t := by
  intro hMem
  have hValid : Valid (.lexeme k t) := (cut_ofText t).valid _ (by simp [h.ofText_eq])
  rcases hValid.eq_of_newline_mem hMem with hBlank | ⟨_, _, hBroken⟩
  · cases hBlank
  · cases hBroken

/-- A reserved word is no name. -/
theorem Lexeme.ne_keyword {t : Text} (h : Lexeme .identifier t) {entry : String × Kind}
    (hEntry : entry ∈ Kind.keywords) : t ≠ Text.ofString entry.1 := by
  have hOther : ∀ entry ∈ Kind.keywords, entry.2 ≠ .identifier := by decide
  rintro rfl
  exact hOther entry hEntry ((lexeme_keyword hEntry).kind_eq h)

theorem join_cons_cons (t u : Text) (ts : List Text) :
    Text.join " " (t :: u :: ts) = t ++ 32 :: Text.join " " (u :: ts) := by
  simp [Text.join, Text.ofString_blank, List.intercalate]

/-- Blanks between lexemes start no new line. -/
theorem newline_notMem_join {ts : List Text} (h : ∀ t ∈ ts, newline ∉ t) :
    newline ∉ Text.join " " ts := by
  induction ts with
  | nil => simp [Text.join]
  | cons t ts ih =>
      obtain ⟨hFirst, hRest⟩ := List.forall_mem_cons.mp h
      cases ts with
      | nil => simpa [Text.join] using hFirst
      | cons u ts =>
          rw [join_cons_cons, List.mem_append, List.mem_cons, not_or, not_or]
          exact ⟨hFirst, by decide, ih hRest⟩

/-- Scanned tokens are spelled by their lexemes with blanks between them. -/
theorem prints_join {w : List Token} (h : ∀ t ∈ w, t.IsScanned) :
    Prints (Text.join " " (w.map Token.lexeme)) (w.map Token.unlined) := by
  induction w with
  | nil => exact prints_nil
  | cons t w ih =>
      obtain ⟨hFirst, hRest⟩ := List.forall_mem_cons.mp h
      have hLexeme := prints_lexeme hFirst.lexeme
      rw [← hFirst.unlined_eq] at hLexeme
      cases w with
      | nil => simpa [Text.join] using hLexeme
      | cons u w =>
          rw [List.map_cons, List.map_cons, join_cons_cons]
          exact hLexeme.append (begins_cons (by decide) _) (ih hRest).blank

/-- Segments without a newline are all on the line of the first one. -/
theorem located_of_newline_notMem {segments : List Segment} (h : ∀ s ∈ segments, newline ∉ s.text)
    (line : Int) : located line segments = segments.map fun s => (line, s) := by
  induction segments with
  | nil => rfl
  | cons s segments ih =>
      obtain ⟨hFirst, hRest⟩ := List.forall_mem_cons.mp h
      have hLine : line + s.newlines = line := by
        rw [newlines, List.count_eq_zero_of_not_mem hFirst]
        exact Int.add_zero line
      rw [located, hLine, ih hRest, List.map_cons]

end Segment

namespace Scan

/-- A text on one line that spells tokens is read as these tokens, on the first line. -/
theorem ofSource_of_line {text : Text} {w : List Token} (h : Segment.Prints text w)
    (hLine : newline ∉ text) :
    ofSource text = ⟨w.map (Token.relined fun _ => 1) ++ [Token.endOfInput 1], []⟩ := by
  obtain ⟨hGood, rfl⟩ := h.ofText_spec
  have hLocated : Segment.located 1 (Segment.ofText text) =
      (Segment.ofText text).map fun s => (1, s) := by
    refine Segment.located_of_newline_notMem (fun s hs hMem => hLine ?_) 1
    rw [← (Segment.cut_ofText text).flatMap_text]
    exact List.mem_flatMap.mpr ⟨s, hs, hMem⟩
  have hTokens : ((Segment.ofText text).map fun s => ((1 : Int), s)).filterMap token? =
      (Segment.words (Segment.ofText text)).map (Token.relined fun _ => 1) := by
    rw [List.filterMap_map, Segment.words, List.map_filterMap]
    congr 1
    funext s
    cases s <;> rfl
  have hLast : lastLine text = 1 := by
    rw [lastLine, List.count_eq_zero_of_not_mem hLine]
    rfl
  rw [ofSource, Segment.diagnostics_located hGood, hLocated, hTokens, hLast]

/-- Scanned tokens come back from their lexemes. -/
theorem ofSource_of_isScanned {w : List Token} (h : ∀ t ∈ w, t.IsScanned) :
    ofSource (Text.join " " (w.map Token.lexeme)) =
      ⟨w.map (Token.relined fun _ => 1) ++ [Token.endOfInput 1], []⟩ := by
  have hLine : newline ∉ Text.join " " (w.map Token.lexeme) := by
    refine Segment.newline_notMem_join (List.forall_mem_map.mpr fun t ht => ?_)
    exact (h t ht).lexeme.newline_notMem
  rw [ofSource_of_line (Segment.prints_join h) hLine, List.map_map]
  rfl

end Scan

/-- The value is one that a lexeme of the kind can stand for. -/
def Value.Suits (kind : Kind) (lexeme : Text) : Value → Prop
  | .number _ => kind = .number
  | .string s => kind = .string ∧ lexeme = quote :: (s ++ [quote])
  | .bool b => kind = if b then .trueWord else .falseWord
  | .nil => kind = .nilWord

namespace Token

variable {t : Token}

/-- A scanned token has a value just if its kind stands for one. -/
theorem IsScanned.isSome_literal_iff (h : t.IsScanned) : t.literal.isSome ↔ t.kind ∈ literalKinds := by
  rw [h.literal]
  cases t.kind <;> simp [Kind.literal, literalKinds]

/-- The value of a scanned token suits its kind. -/
theorem IsScanned.suits (h : t.IsScanned) {v : Value} (hv : t.literal = some v) :
    v.Suits t.kind t.lexeme := by
  have hKind : t.kind ∈ literalKinds := h.isSome_literal_iff.mp (by rw [hv]; rfl)
  rcases h.literal_cases hKind with ⟨hNumber, hLiteral⟩ | ⟨hString, s, hText, hLiteral, -⟩ |
    ⟨hTrue, hLiteral⟩ | ⟨hFalse, hLiteral⟩ | ⟨hNil, hLiteral⟩
  all_goals cases hLiteral.symm.trans hv
  · exact hNumber
  · exact ⟨hString, hText⟩
  · exact hTrue
  · exact hFalse
  · exact hNil

/-- The token has a value exactly if its kind is one that stands for a value, and then one that suits its
kind; and it is a name only if its lexeme is no reserved word. -/
structure IsSound (t : Token) : Prop where
  literal : t.literal.isSome ↔ t.kind ∈ literalKinds
  suits : ∀ v ∈ t.literal, v.Suits t.kind t.lexeme
  name : t.kind = .identifier → ∀ entry ∈ Kind.keywords, t.lexeme ≠ Text.ofString entry.1

/-- Scanned tokens are sound. -/
theorem IsScanned.isSound (h : t.IsScanned) : t.IsSound where
  literal := h.isSome_literal_iff
  suits _ hv := h.suits hv
  name hKind _ hEntry := (hKind ▸ h.lexeme).ne_keyword hEntry

theorem isSound_endOfInput (line : Int) : (endOfInput line).IsSound where
  literal := by simp [endOfInput, literalKinds]
  suits v hv := by cases hv
  name hKind := by cases hKind

end Token

/-- Lexemes are recognised by themselves. The lexemes of a source, also of one that has errors, on one
line with blanks between them, are read without complaint as the same tokens, all on line 1. Each token
has a value exactly if its kind is one that stands for a value, and it is the value of its lexeme; and no
name is a reserved word. -/
theorem Scan.ofSource_join (source : Text) :
    let words := (ofSource source).tokens.filter (·.kind ≠ .eof)
    ofSource (Text.join " " (words.map Token.lexeme)) =
        ⟨words.map (Token.relined fun _ => 1) ++ [Token.endOfInput 1], []⟩ ∧
      ∀ t ∈ (ofSource source).tokens, t.IsSound := by
  intro words
  have hWords : words = lexemes source := by
    have hEnd : (lexemes source).filter (·.kind ≠ .eof) = lexemes source :=
      List.filter_eq_self.mpr fun t ht => decide_eq_true (Program.kind_ne_eof_of_mem_lexemes ht)
    simp only [words, tokens_ofSource, List.filter_append, hEnd]
    exact List.append_nil _
  have hScanned : ∀ t ∈ lexemes source, t.IsScanned := fun t => isScanned_of_mem
  constructor
  · rw [hWords]
    exact ofSource_of_isScanned hScanned
  · rw [tokens_ofSource, List.forall_mem_append]
    exact ⟨fun t ht => (hScanned t ht).isSound, by simpa using Token.isSound_endOfInput _⟩

end Lox
