import Lox.Proofs.Grammar.Stmt

/-! The grammar of programs. A list of tokens is read without complaint exactly when it is derivable,
and what is read is then the tree of the one derivation that gives every `else` to the nearest `if`. -/
namespace Lox

namespace Stmt

/-- A derivation with every `else` at the nearest `if` is in particular a derivation. -/
theorem Derives.of_nearest {part : Part} {w : List Token} {ss : List Stmt}
    (h : Derives true part w ss) : Derives false part w ss := by
  induction h with
  | expr hSimple => exact .expr hSimple
  | print hKeyword hDerives hSemicolon => exact .print hKeyword hDerives hSemicolon
  | block hOpening _ hClosing ih => exact .block hOpening ih hClosing
  | ifThen hKeyword hCondition _ ih => exact .ifThen hKeyword hCondition ih
  | ifElse hKeyword hCondition _ _ hOther _ ihYes ihNo =>
      exact .ifElse hKeyword hCondition ihYes (by simp) hOther ihNo
  | whileLoop hKeyword hCondition _ ih => exact .whileLoop hKeyword hCondition ih
  | forLoop hKeyword hClauses _ ih => exact .forLoop hKeyword hClauses ih
  | varDecl hVar hVariable => exact .varDecl hVar hVariable
  | statement _ ih => exact .statement ih
  | nil => exact .nil
  | cons _ _ ihHead ihTail => exact .cons ihHead ihTail

/-- An `else` after a dangling statement goes to the innermost `if` that is still open, and the
result is a statement again. -/
theorem Derives.attach {part : Part} {w₁ w₂ : List Token} {ss : List Stmt} {no : Stmt}
    {other : Token} {d : Bool} (h : Derives true part w₁ ss) (hPart : part = .statement true)
    (hOther : other.kind = .elseWord) (hNo : Derives true (.statement d) w₂ [no]) :
    ∃ d' s, Derives true (.statement d') (w₁ ++ other :: w₂) [s] := by
  induction h with
  | @ifThen keyword c w condition yes d' hKeyword hCondition hYes ih =>
      cases d' with
      | false => exact ⟨d, _, .ifElse hKeyword hCondition hYes (fun _ => rfl) hOther hNo⟩
      | true =>
          obtain ⟨d', s, hDerives⟩ := ih rfl
          exact ⟨true, _, by simpa using Derives.ifThen hKeyword hCondition hDerives⟩
  | ifElse hKeyword hCondition hYes hNearest hOther' _ _ ihNo =>
      obtain ⟨d', s, hDerives⟩ := ihNo hPart
      exact ⟨d', _, by simpa using Derives.ifElse hKeyword hCondition hYes hNearest hOther' hDerives⟩
  | whileLoop hKeyword hCondition _ ih =>
      obtain ⟨d', s, hDerives⟩ := ih hPart
      exact ⟨d', _, by simpa using Derives.whileLoop hKeyword hCondition hDerives⟩
  | forLoop hKeyword hClauses _ ih =>
      obtain ⟨d', s, hDerives⟩ := ih hPart
      exact ⟨d', _, by simpa using Derives.forLoop hKeyword hClauses hDerives⟩
  | _ => cases hPart

/-- The tokens are derivable with every `else` at the nearest `if`, as the same kind of phrase. -/
def HasNearest : Part → List Token → Prop
  | .statement _, w => ∃ d s, Derives true (.statement d) w [s]
  | .declaration, w => ∃ s, Derives true .declaration w [s]
  | .declarations, w => ∃ body, Derives true .declarations w body

/-- Whatever is derivable is derivable with every `else` at the nearest `if`. -/
theorem Derives.hasNearest {part : Part} {w : List Token} {ss : List Stmt}
    (h : Derives false part w ss) : HasNearest part w := by
  induction h with
  | expr hSimple => exact ⟨false, _, .expr hSimple⟩
  | print hKeyword hDerives hSemicolon =>
      exact ⟨false, _, .print hKeyword hDerives hSemicolon⟩
  | block hOpening _ hClosing ih =>
      obtain ⟨body, hBody⟩ := ih
      exact ⟨false, _, .block hOpening hBody hClosing⟩
  | ifThen hKeyword hCondition _ ih =>
      obtain ⟨d, yes, hYes⟩ := ih
      exact ⟨true, _, .ifThen hKeyword hCondition hYes⟩
  | @ifElse keyword other c w₁ w₂ _ _ _ _ _ hKeyword hCondition _ _ hOther _ ihYes ihNo =>
      obtain ⟨d₁, yes, hYes⟩ := ihYes
      obtain ⟨d₂, no, hNo⟩ := ihNo
      cases d₁ with
      | false => exact ⟨d₂, _, .ifElse hKeyword hCondition hYes (fun _ => rfl) hOther hNo⟩
      | true =>
          -- the `else` moves into the branch, and the outer `if` is left without one
          obtain ⟨d, s, hDerives⟩ := hYes.attach rfl hOther hNo
          exact ⟨true, _, by simpa using Derives.ifThen hKeyword hCondition hDerives⟩
  | whileLoop hKeyword hCondition _ ih =>
      obtain ⟨d, body, hBody⟩ := ih
      exact ⟨d, _, .whileLoop hKeyword hCondition hBody⟩
  | forLoop hKeyword hClauses _ ih =>
      obtain ⟨d, body, hBody⟩ := ih
      exact ⟨d, _, .forLoop hKeyword hClauses hBody⟩
  | varDecl hVar hVariable => exact ⟨_, .varDecl hVar hVariable⟩
  | statement _ ih =>
      obtain ⟨d, s, hDerives⟩ := ih
      exact ⟨s, .statement hDerives⟩
  | nil => exact ⟨[], .nil⟩
  | cons _ _ ihHead ihTail =>
      obtain ⟨s, hHead⟩ := ihHead
      obtain ⟨body, hTail⟩ := ihTail
      exact ⟨s :: body, .cons hHead hTail⟩

end Stmt

namespace Program

open Reading (ahead)

/-- The tokens are derivable as a program, and the program is the tree of the derivation. With
`nearest` every `else` belongs to the nearest `if` that has none. -/
def Derives (nearest : Bool) (w : List Token) (p : Program) : Prop :=
  Stmt.Derives nearest .declarations w p.statements

theorem attempts_nil : attempts [] = [] := by
  rw [attempts]
  exact dif_pos rfl

/-- After a declaration, attempts go on with what is left over. -/
theorem attempts_of_reads {ts rest : List Token} {s : Stmt} (hEnd : ahead ts ≠ .eof)
    (h : (Stmt.readDeclaration ts).Reads s rest) : attempts ts = .ok s :: attempts rest := by
  obtain ⟨fewer, hDone⟩ := h
  rw [attempts.eq_def]
  simp [hEnd, hDone]

/-- All attempts succeed on tokens that are derivable, and those after them do not matter unless they
could go on the last statement. -/
theorem attempts_append {w : List Token} {ss : List Stmt}
    (h : Stmt.Derives true .declarations w ss) {rest : List Token} (hRest : ahead rest ≠ .elseWord) :
    attempts (w ++ rest) = ss.map .ok ++ attempts rest := by
  induction ss generalizing w with
  | nil =>
      cases h
      rfl
  | cons s body ih =>
      cases h with
      | @cons w₁ w₂ _ _ hHead hTail =>
          have hNext : ahead (w₂ ++ rest) ≠ .elseWord := Stmt.ahead_declarations_ne_else hTail hRest
          have hReads := hHead.isRead s (w₂ ++ rest) rfl hNext
          obtain ⟨t, w', rfl, hStarts⟩ := hHead.exists_cons (by simp)
          have hEnd : t.kind ≠ .eof := by
            intro h
            simp [h, Stmt.declarationStarts, exprStarts] at hStarts
          rw [List.append_assoc, attempts_of_reads (by simpa using hEnd) hReads, ih hTail,
            List.map_cons, List.cons_append]

/-- Attempts at derivable tokens read the declarations of the derivation, and nothing else. -/
theorem attempts_of_derives {w : List Token} {ss : List Stmt}
    (h : Stmt.Derives true .declarations w ss) : attempts w = ss.map .ok := by
  have hNone : ahead [] ≠ .elseWord := by simp [ahead]
  simpa [attempts_nil] using attempts_append h hNone

/-- Tokens on which all attempts succeed are derivable. -/
theorem derives_of_attempts {w : List Token} {ss : List Stmt} (hEnd : ∀ t ∈ w, t.kind ≠ .eof)
    (h : attempts w = ss.map .ok) : Stmt.Derives true .declarations w ss := by
  induction ss generalizing w with
  | nil =>
      cases w with
      | nil => exact .nil
      | cons t w =>
          have hKind : t.kind ≠ .eof := hEnd t (by simp)
          rw [attempts.eq_def] at h
          simp only [Reading.ahead_cons, hKind, ↓reduceDIte, List.map_nil] at h
          split at h <;> cases h
  | cons s body ih =>
      rw [attempts.eq_def] at h
      split at h
      next => cases h
      next =>
        split at h
        next s' rest fewer hDone =>
          simp only [List.map_cons, List.cons.injEq, Except.ok.injEq] at h
          obtain ⟨rfl, hRest⟩ := h
          obtain ⟨w₁, rfl, hHead⟩ := Stmt.derives_of_readDeclaration ⟨fewer, hDone⟩
          exact .cons hHead (ih (fun t ht => hEnd t (by simp [ht])) hRest)
        next => simp at h

/-- The last token is the end of the input. -/
theorem splitEnd_append {w : List Token} {last : Token} (h : last.kind = .eof) :
    splitEnd (w ++ [last]) = (w, last.line) := by
  simp [splitEnd, h]

/-- What is reported about an attempt at a declaration, in an input that ends on line `last`. -/
def report? (last : Int) : Except Problem Stmt → Option Diagnostic
  | .ok _ => none
  | .error problem => some (problem.diagnostic last)

theorem statements_ofTokens (tokens : List Token) : (ofTokens tokens).program.statements =
    (attempts (splitEnd tokens).1).filterMap Except.toOption := rfl

theorem diagnostics_ofTokens (tokens : List Token) : (ofTokens tokens).diagnostics =
    (attempts (splitEnd tokens).1).filterMap (report? (splitEnd tokens).2) := rfl

/-- Nothing is reported exactly when every attempt succeeds, and the program then holds what the
attempts gave. -/
theorem ofTokens_eq_iff_attempts {w : List Token} {last : Token} (h : last.kind = .eof)
    (p : Program) :
    ((ofTokens (w ++ [last])).diagnostics = [] ∧ (ofTokens (w ++ [last])).program = p) ↔
      attempts w = p.statements.map .ok := by
  obtain ⟨ss⟩ := p
  simp only [ofTokens, splitEnd_append h, Program.mk.injEq]
  generalize attempts w = results
  induction results generalizing ss with
  | nil => cases ss <;> simp
  | cons r results ih =>
      cases r with
      | error problem => cases ss <;> simp
      | ok s =>
          cases ss with
          | nil => simp [Except.toOption]
          | cons s' ss =>
              simp only [List.filterMap_cons, Except.toOption, List.cons.injEq, List.map_cons,
                Except.ok.injEq] at ih ⊢
              rw [← ih ss]
              grind

/-- The reader of programs meets the grammar: it complains of nothing exactly when the tokens are
derivable, and the program it gives is that of the derivation in which every `else` belongs to the
nearest `if`. -/
theorem ofTokens_eq_iff_derives {w : List Token} {last : Token}
    (hTokens : ∀ t ∈ w, t.kind ≠ .eof) (hLast : last.kind = .eof) :
    ((ofTokens (w ++ [last])).diagnostics = [] ↔ ∃ p, Derives false w p) ∧
      ∀ p, Derives true w p ↔
        (ofTokens (w ++ [last])).diagnostics = [] ∧ (ofTokens (w ++ [last])).program = p := by
  have hProgram : ∀ p, Derives true w p ↔
      (ofTokens (w ++ [last])).diagnostics = [] ∧ (ofTokens (w ++ [last])).program = p := by
    intro p
    rw [ofTokens_eq_iff_attempts hLast]
    exact ⟨attempts_of_derives, derives_of_attempts hTokens⟩
  refine ⟨⟨?_, ?_⟩, hProgram⟩
  · intro hNone
    exact ⟨_, Stmt.Derives.of_nearest ((hProgram _).mpr ⟨hNone, rfl⟩)⟩
  · rintro ⟨p, hDerives⟩
    obtain ⟨body, hNearest⟩ := Stmt.Derives.hasNearest hDerives
    exact ((hProgram ⟨body⟩).mp hNearest).1

/-- The tokens of `if (a) if (a) a; else a;`, where the grammar alone allows two trees. -/
theorem ofTokens_eq_iff_derives_nestedIf :
    let w := [Kind.ifWord, .leftParen, .identifier, .rightParen, .ifWord, .leftParen, .identifier,
      .rightParen, .identifier, .semicolon, .elseWord, .identifier, .semicolon].map
        fun k => Token.read k "a" 1
    (∀ t ∈ w, t.kind ≠ .eof) ∧ (Token.endOfInput 1).kind = .eof ∧
      ((ofTokens (w ++ [Token.endOfInput 1])).diagnostics = [] ↔ ∃ p, Derives false w p) ∧
      ∀ p, Derives true w p ↔ (ofTokens (w ++ [Token.endOfInput 1])).diagnostics = [] ∧
        (ofTokens (w ++ [Token.endOfInput 1])).program = p :=
  ⟨by decide, rfl, ofTokens_eq_iff_derives (by decide) rfl⟩

end Program
end Lox
