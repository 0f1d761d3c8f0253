import Lox.Proofs.Format.Program
import Lox.Proofs.Lexing.Cutting

/-! The extent of a program that is read. The lines it is on, the depth of its blocks and the number of
its statements are at most the length of the source and one more. -/
namespace Lox

abbrev Token.Within (limit : Nat) (t : Token) : Prop := t.line.natAbs ≤ limit

variable {limit depth : Nat} {w : List Token}

namespace Expr

def Within (limit : Nat) : Expr → Prop
  | .literal _ line => line.natAbs ≤ limit
  | .name token => token.Within limit
  | .assign target value => target.Within limit ∧ value.Within limit
  | .binary left op right => op.Within limit ∧ left.Within limit ∧ right.Within limit
  | .logical left op right => op.Within limit ∧ left.Within limit ∧ right.Within limit
  | .unary op operand => op.Within limit ∧ operand.Within limit
  | .group inner => inner.Within limit

theorem Within.line {e : Expr} (h : e.Within limit) : e.line.natAbs ≤ limit := by
  induction e with
  | literal => exact h
  | name => exact h
  | group _ ih => exact ih h
  | _ => exact h.1

/-- An expression is on the lines of its tokens. -/
theorem Derives.within {rank : Rank} {e : Expr} (h : Derives rank w e)
    (hTokens : ∀ t ∈ w, t.Within limit) : e.Within limit := by
  induction h with
  | assign _ _ _ ih =>
      simp only [List.forall_mem_cons] at hTokens
      exact ⟨hTokens.1, ih hTokens.2.2⟩
  | loosest _ ih => exact ih hTokens
  | operand _ ih => exact ih hTokens
  | @chain level _ _ _ _ _ _ _ hForms _ ihLeft ihRight =>
      obtain ⟨-, rfl⟩ := Level.forms_iff.mp hForms
      simp only [List.forall_mem_append, List.forall_mem_cons] at hTokens
      cases level <;> exact ⟨hTokens.2.1, ihLeft hTokens.1, ihRight hTokens.2.2⟩
  | unary _ _ ih =>
      simp only [List.forall_mem_cons] at hTokens
      exact ⟨hTokens.1, ih hTokens.2⟩
  | primary _ ih => exact ih hTokens
  | literal => exact hTokens _ List.mem_cons_self
  | name => exact hTokens _ List.mem_cons_self
  | group _ _ _ ih =>
      simp only [List.cons_append, List.forall_mem_cons, List.forall_mem_append] at hTokens
      exact ih hTokens.2.1

end Expr

namespace Stmt

mutual

/-- Inside so many scopes, the statement opens no more than a limit of them, and all of its lines are
within the limit. -/
def Within (limit depth : Nat) : Stmt → Prop
  | .expr e => e.Within limit
  | .print keyword e => keyword.Within limit ∧ e.Within limit
  | .declare _ token none => token.Within limit
  | .declare _ token (some e) => token.Within limit ∧ e.Within limit
  | .block line body => (line.natAbs ≤ limit ∧ depth + 1 ≤ limit) ∧ AreWithin limit (depth + 1) body
  | .branch keyword condition yes none =>
    keyword.Within limit ∧ condition.Within limit ∧ yes.Within limit depth
  | .branch keyword condition yes (some no) =>
    keyword.Within limit ∧ condition.Within limit ∧ yes.Within limit depth ∧ no.Within limit depth
  | .loop keyword condition body =>
    keyword.Within limit ∧ condition.Within limit ∧ body.Within limit depth

def AreWithin (limit depth : Nat) : List Stmt → Prop
  | [] => True
  | s :: rest => s.Within limit depth ∧ AreWithin limit depth rest

end

/-- Statements are within a limit if each of them is. -/
theorem areWithin_iff {ss : List Stmt} :
    AreWithin limit depth ss ↔ ∀ s ∈ ss, s.Within limit depth := by
  induction ss with
  | nil => simp [AreWithin]
  | cons s ss ih => rw [AreWithin, ih, List.forall_mem_cons]

theorem Within.line {s : Stmt} (h : s.Within limit depth) : s.line.natAbs ≤ limit := by
  cases s with
  | expr e => exact Expr.Within.line h
  | declare name token value =>
      cases value with
      | none => exact h
      | some e => exact h.1
  | block line body => exact h.1.1
  | branch keyword condition yes no =>
      cases no with
      | none => exact h.1
      | some no => exact h.1
  | _ => exact h.1

theorem Variable.within {s : Stmt} (h : Variable w s) (hTokens : ∀ t ∈ w, t.Within limit) :
    s.Within limit depth := by
  cases h with
  | bare => exact hTokens _ List.mem_cons_self
  | initialized _ _ hValue =>
      simp only [List.cons_append, List.forall_mem_cons, List.forall_mem_append] at hTokens
      exact ⟨hTokens.1, hValue.within hTokens.2.2.1⟩

/-- A simple statement is on the lines of its tokens. -/
theorem Simple.within {s : Stmt} (h : Simple w s) (hTokens : ∀ t ∈ w, t.Within limit) :
    s.Within limit depth := by
  cases h with
  | mk hExpr => exact hExpr.within (List.forall_mem_append.mp hTokens).1

theorem Condition.within {e : Expr} (h : Condition w e) (hTokens : ∀ t ∈ w, t.Within limit) :
    e.Within limit := by
  cases h with
  | mk _ hExpr =>
      simp only [List.cons_append, List.forall_mem_cons, List.forall_mem_append] at hTokens
      exact hExpr.within hTokens.2.1

theorem Start.within {start : Option Stmt} (h : Start w start) (hTokens : ∀ t ∈ w, t.Within limit) :
    ∀ s ∈ start.toList, s.Within limit depth := by
  cases h with
  | missing => simp
  | declaration _ hVariable =>
      exact List.forall_mem_singleton.mpr (hVariable.within (List.forall_mem_cons.mp hTokens).2)
  | expression hSimple => exact List.forall_mem_singleton.mpr (hSimple.within hTokens)

theorem Clause.within {delimiter : Kind} {clause : Option Expr} (h : Clause delimiter w clause)
    (hTokens : ∀ t ∈ w, t.Within limit) : ∀ e ∈ clause, e.Within limit := by
  cases h with
  | missing => simp
  | expression hExpr => simpa using hExpr.within (List.forall_mem_append.mp hTokens).1

/-- A loop with three clauses opens two scopes, one for the clauses and one for an iteration. -/
theorem within_counting {keyword : Token} {c : List Token} {start : Option Stmt}
    {condition step : Option Expr} {body : Stmt} (hClauses : Clauses c (start, condition, step))
    (hKeyword : keyword.Within limit) (hTokens : ∀ t ∈ c, t.Within limit) (hDepth : depth + 2 ≤ limit)
    (hBody : body.Within limit (depth + 2)) :
    (counting keyword start condition step body).Within limit depth := by
  obtain ⟨_, hStart, hCondition, hStep⟩ := hClauses
  simp only [List.cons_append, List.forall_mem_cons, List.forall_mem_append] at hTokens
  obtain ⟨-, ⟨hFirst, hSecond⟩, hThird⟩ := hTokens
  have hIteration : AreWithin limit (depth + 2) (body :: (step.map Stmt.expr).toList) := by
    refine areWithin_iff.mpr (List.forall_mem_cons.mpr ⟨hBody, ?_⟩)
    cases step with
    | none => simp
    | some e => exact List.forall_mem_singleton.mpr (hStep.within hThird e rfl)
  have hTest : (condition.getD (.literal (some (.bool true)) keyword.line)).Within limit := by
    cases condition with
    | none => exact hKeyword
    | some e => exact hCondition.within hSecond e rfl
  refine ⟨⟨hKeyword, by omega⟩, areWithin_iff.mpr (List.forall_mem_append.mpr ⟨hStart.within hFirst, ?_⟩)⟩
  exact List.forall_mem_singleton.mpr ⟨hKeyword, hTest, ⟨hKeyword, hDepth⟩, hIteration⟩

/-- The clauses of a counting loop take up tokens. -/
theorem Clauses.length_pos {clauses : Option Stmt × Option Expr × Option Expr} (h : Clauses w clauses) :
    0 < w.length := by
  cases h with
  | mk => exact Nat.succ_pos _

/-- What is derived from tokens nests no deeper than there are tokens. -/
theorem Derives.within {nearest : Bool} {part : Part} {ss : List Stmt} (h : Derives nearest part w ss)
    (hTokens : ∀ t ∈ w, t.Within limit) (hDepth : depth + w.length ≤ limit) :
    AreWithin limit depth ss := by
  induction h generalizing depth with
  | expr hSimple => exact ⟨hSimple.within hTokens, trivial⟩
  | print _ hExpr _ =>
      simp only [List.cons_append, List.forall_mem_cons, List.forall_mem_append] at hTokens
      exact ⟨⟨hTokens.1, hExpr.within hTokens.2.1⟩, trivial⟩
  | block _ _ _ ih =>
      simp only [List.cons_append, List.forall_mem_cons, List.forall_mem_append] at hTokens
      simp only [List.cons_append, List.length_cons, List.length_append] at hDepth
      exact ⟨⟨⟨hTokens.1, by omega⟩, ih hTokens.2.1 (by omega)⟩, trivial⟩
  | ifThen _ hCondition _ ih =>
      simp only [List.cons_append, List.forall_mem_cons, List.forall_mem_append] at hTokens
      simp only [List.cons_append, List.length_cons, List.length_append] at hDepth
      exact ⟨⟨hTokens.1, hCondition.within hTokens.2.1, (ih hTokens.2.2 (by omega)).1⟩, trivial⟩
  | ifElse _ hCondition _ _ _ _ ihYes ihNo =>
      simp only [List.cons_append, List.append_assoc, List.forall_mem_cons,
        List.forall_mem_append] at hTokens
      simp only [List.cons_append, List.length_cons, List.length_append] at hDepth
      obtain ⟨hKeyword, hTest, hFirst, -, hSecond⟩ := hTokens
      exact ⟨⟨hKeyword, hCondition.within hTest, (ihYes hFirst (by omega)).1,
        (ihNo hSecond (by omega)).1⟩, trivial⟩
  | whileLoop _ hCondition _ ih =>
      simp only [List.cons_append, List.forall_mem_cons, List.forall_mem_append] at hTokens
      simp only [List.cons_append, List.length_cons, List.length_append] at hDepth
      exact ⟨⟨hTokens.1, hCondition.within hTokens.2.1, (ih hTokens.2.2 (by omega)).1⟩, trivial⟩
  | forLoop _ hClauses _ ih =>
      simp only [List.cons_append, List.forall_mem_cons, List.forall_mem_append] at hTokens
      simp only [List.cons_append, List.length_cons, List.length_append] at hDepth
      have hSome := hClauses.length_pos
      exact ⟨within_counting hClauses hTokens.1 hTokens.2.1 (by omega)
        (ih hTokens.2.2 (by omega)).1, trivial⟩
  | varDecl _ hVariable => exact ⟨hVariable.within (List.forall_mem_cons.mp hTokens).2, trivial⟩
  | statement _ ih => exact ih hTokens hDepth
  | nil => trivial
  | cons _ _ ihHead ihTail =>
      simp only [List.forall_mem_append] at hTokens
      rw [List.length_append] at hDepth
      exact ⟨(ihHead hTokens.1 (by omega)).1, ihTail hTokens.2 (by omega)⟩

end Stmt

/-- A source has no more lines than bytes. -/
theorem Segment.line_of_mem_located {start line : Int} {s : Segment} {segments : List Segment}
    (h : (line, s) ∈ located start segments) :
    start ≤ line ∧ line ≤ start + (segments.flatMap text).length := by
  induction segments generalizing start with
  | nil => cases h
  | cons first segments ih =>
      rw [List.flatMap_cons, List.length_append]
      rcases List.mem_cons.mp h with hHead | hTail
      · cases hHead
        omega
      · have hNewlines : first.newlines ≤ first.text.length := List.count_le_length
        have hLine := ih hTail
        omega

/-- Every token is on a line of the source. -/
theorem Scan.within_of_mem {source : Text} {t : Token}
    (h : t ∈ (Segment.located 1 (Segment.ofText source)).filterMap token?) :
    t.Within (source.length + 1) := by
  obtain ⟨⟨line, s⟩, hMem, hToken⟩ := List.mem_filterMap.mp h
  have hLine := Segment.line_of_mem_located hMem
  rw [(Segment.cut_ofText source).flatMap_text] at hLine
  cases s with
  | lexeme kind text =>
      cases hToken
      change line.natAbs ≤ source.length + 1
      omega
  | _ => cases hToken

/-- Every token takes a byte of the source. -/
theorem Scan.length_tokens_le (source : Text) :
    ((Segment.located 1 (Segment.ofText source)).filterMap token?).length ≤ source.length := by
  have hCut := Segment.cut_ofText source
  have hLocated (start : Int) (segments : List Segment) (h : ∀ s ∈ segments, s.text ≠ []) :
      (Segment.located start segments).length ≤ (segments.flatMap Segment.text).length := by
    induction segments generalizing start with
    | nil => exact Nat.le_refl 0
    | cons s segments ih =>
        obtain ⟨hFirst, hRest⟩ := List.forall_mem_cons.mp h
        have hPos := List.length_pos_iff_ne_nil.mpr hFirst
        have hTail := ih (start + s.newlines) hRest
        rw [Segment.located, List.length_cons, List.flatMap_cons, List.length_append]
        omega
  have hSegments := hLocated 1 (Segment.ofText source) fun s hs => (hCut.valid s hs).text_ne_nil
  rw [hCut.flatMap_text] at hSegments
  exact (List.length_filterMap_le _ _).trans hSegments

namespace Program

/-- Every attempt takes up a token. -/
theorem length_attempts_le (ts : List Token) : (attempts ts).length ≤ ts.length := by
  fun_induction attempts ts with
  | case1 => exact Nat.zero_le _
  | case2 ts _ s rest fewer hDone ih =>
      rw [List.length_cons]
      omega
  | case3 ts hMore problem rest atMost hFailed ih =>
      have hRecover := length_recover rest
      have hSome : 0 < ts.length := by
        cases ts with
        | nil => simp [Reading.ahead] at hMore
        | cons => simp
      rw [List.length_cons]
      omega

/-- The program and its nesting and lines are no larger than the source. -/
structure Within (limit : Nat) (p : Program) : Prop where
  length_le : p.statements.length ≤ limit
  statements : ∀ s ∈ p.statements, s.Within limit 0

theorem Within.line {p : Program} (h : p.Within limit) (hPos : 0 < limit) : p.line.natAbs ≤ limit := by
  obtain ⟨ss⟩ := p
  cases ss with
  | nil => exact hPos
  | cons s ss => exact (h.statements s List.mem_cons_self).line

/-- A program nests no deeper than its source is long. -/
theorem within_ofTokens (source : Text) :
    (ofTokens (Scan.ofSource source).tokens).program.Within (source.length + 1) := by
  have hTokens : splitEnd (Scan.ofSource source).tokens =
      ((Segment.located 1 (Segment.ofText source)).filterMap Scan.token?, Scan.lastLine source) :=
    splitEnd_append rfl
  have hLength := Scan.length_tokens_le source
  constructor
  · rw [statements_ofTokens, hTokens]
    have hAttempts := length_attempts_le
      ((Segment.located 1 (Segment.ofText source)).filterMap Scan.token?)
    have hSome := List.length_filterMap_le Except.toOption
      (attempts ((Segment.located 1 (Segment.ofText source)).filterMap Scan.token?))
    dsimp only
    omega
  · intro s hs
    rw [statements_ofTokens, hTokens, List.mem_filterMap] at hs
    dsimp only at hs
    obtain ⟨result, hMem, hOk⟩ := hs
    cases result with
    | error problem => cases hOk
    | ok s' =>
        cases hOk
        obtain ⟨w, hInfix, hDerives⟩ := derives_of_mem_attempts hMem
        have hShorter := hInfix.length_le
        exact (hDerives.within (fun t ht => Scan.within_of_mem (hInfix.subset ht)) (by omega)).1

end Program
end Lox
