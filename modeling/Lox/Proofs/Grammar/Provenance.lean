import Lox.Proofs.Execution.Provenance
import Lox.Proofs.Grammar.WellFormed

/-! Where the literals and the blamed tokens of a program come from: from the tokens that it is read
from, each in a place that fits its kind. What is asked of values and faults can thus be asked of the
tokens. -/
namespace Lox

/-- A token of this kind denotes an operator between two operands or before a single one. -/
def Kind.IsOperator (k : Kind) : Prop :=
  (BinaryOp.ofKind? k).isSome = true ∨ (UnaryOp.ofKind? k).isSome = true

instance (k : Kind) : Decidable k.IsOperator := inferInstanceAs (Decidable (_ ∨ _))

def Kind.IsLoop (k : Kind) : Prop := k = .whileWord ∨ k = .forWord

instance (k : Kind) : Decidable k.IsLoop := inferInstanceAs (Decidable (_ ∨ _))

/-- Wherever a token of its kind may stand, the token is as asked for. -/
structure Token.Obeys (p : Policy) (t : Token) : Prop where
  literal : t.kind ∈ literalKinds → p.value (some (t.literal.getD .nil))
  name : t.kind = .identifier → p.fault ⟨.undefined, t⟩
  operator : t.kind.IsOperator → ∀ e, p.fault ⟨.operands e, t⟩
  print : t.kind = .printWord → ∀ reason, p.fault ⟨.write reason, t⟩
  iterations : t.kind.IsLoop → ∀ n, p.fault ⟨.iterations n, t⟩
  time : t.kind.IsLoop → ∀ n, p.fault ⟨.time n, t⟩

variable {p : Policy} {w : List Token}

/-- The truth value of a missing condition is a value as asked for. -/
theorem Policy.bool_true (p : Policy) : p.value (some (.bool true)) := by
  have hNot : UnaryOp.not.apply (some .nil) = .ok (.bool true) := rfl
  exact p.unary p.nil hNot

namespace Expr

theorem obeys_node {level : Level} {left right : Expr} {op : Token} (hOp : op.kind ∈ level.operators)
    (hToken : op.Obeys p) (hLeft : left.Obeys p) (hRight : right.Obeys p) :
    (level.node left op right).Obeys p := by
  have hBinary (h : (BinaryOp.ofKind? op.kind).isSome = true) : (Expr.binary left op right).Obeys p :=
    ⟨⟨hToken.operator (Or.inl h), fun hNone => by simp [hNone] at h⟩, hLeft, hRight⟩
  cases level with
  | or => exact ⟨fun hOr _ => absurd (List.mem_singleton.mp hOp) hOr, hLeft, hRight⟩
  | and => exact ⟨fun _ hAnd => absurd (List.mem_singleton.mp hOp) hAnd, hLeft, hRight⟩
  | _ => exact hBinary (isSome_ofKind? (by decide) _ hOp)

/-- An expression of tokens as asked for is as asked for. -/
theorem Derives.obeys {rank : Rank} {e : Expr} (h : Derives rank w e) (hTokens : ∀ t ∈ w, t.Obeys p) :
    e.Obeys p := by
  induction h with
  | assign hTarget _ _ ih =>
      simp only [List.forall_mem_cons] at hTokens
      exact ⟨hTokens.1.name hTarget, ih hTokens.2.2⟩
  | loosest _ ih => exact ih hTokens
  | operand _ ih => exact ih hTokens
  | chain _ hForms _ ihLeft ihRight =>
      obtain ⟨hOp, rfl⟩ := Level.forms_iff.mp hForms
      simp only [List.forall_mem_append, List.forall_mem_cons] at hTokens
      exact obeys_node hOp hTokens.2.1 (ihLeft hTokens.1) (ihRight hTokens.2.2)
  | @unary op _ _ hOp _ ih =>
      simp only [List.forall_mem_cons] at hTokens
      have hKinds : ∀ k ∈ unaryOperators, (UnaryOp.ofKind? k).isSome = true := by decide
      have hDenotes := hKinds op.kind (mem_unaryOperators.mpr hOp)
      exact ⟨⟨hTokens.1.operator (Or.inr hDenotes), fun hNone => by simp [hNone] at hDenotes⟩, ih hTokens.2⟩
  | primary _ ih => exact ih hTokens
  | literal hKind => exact (hTokens _ List.mem_cons_self).literal (mem_literalKinds.mpr hKind)
  | name hKind => exact (hTokens _ List.mem_cons_self).name hKind
  | group _ _ _ ih =>
      simp only [List.cons_append, List.forall_mem_cons, List.forall_mem_append] at hTokens
      exact ih hTokens.2.1

end Expr

namespace Stmt

theorem Variable.obeys {s : Stmt} (h : Variable w s) (hTokens : ∀ t ∈ w, t.Obeys p) : s.Obeys p := by
  cases h with
  | bare => trivial
  | initialized _ _ hValue =>
      simp only [List.cons_append, List.forall_mem_cons, List.forall_mem_append] at hTokens
      exact hValue.obeys hTokens.2.2.1

/-- A simple statement of tokens as asked for is as asked for. -/
theorem Simple.obeys {s : Stmt} (h : Simple w s) (hTokens : ∀ t ∈ w, t.Obeys p) : s.Obeys p := by
  cases h with
  | mk hExpr => exact hExpr.obeys (List.forall_mem_append.mp hTokens).1

theorem Condition.obeys {e : Expr} (h : Condition w e) (hTokens : ∀ t ∈ w, t.Obeys p) : e.Obeys p := by
  cases h with
  | mk _ hExpr =>
      simp only [List.cons_append, List.forall_mem_cons, List.forall_mem_append] at hTokens
      exact hExpr.obeys hTokens.2.1

theorem Start.obeys {start : Option Stmt} (h : Start w start) (hTokens : ∀ t ∈ w, t.Obeys p) :
    ∀ s ∈ start.toList, s.Obeys p := by
  cases h with
  | missing => simp
  | declaration _ hVariable => simpa using hVariable.obeys (List.forall_mem_cons.mp hTokens).2
  | expression hSimple => simpa using hSimple.obeys hTokens

theorem Clause.obeys {delimiter : Kind} {clause : Option Expr} (h : Clause delimiter w clause)
    (hTokens : ∀ t ∈ w, t.Obeys p) : ∀ e ∈ clause, e.Obeys p := by
  cases h with
  | missing => simp
  | expression hExpr => simpa using hExpr.obeys (List.forall_mem_append.mp hTokens).1

/-- A counting loop has no literal or keyword that is not as asked for. -/
theorem obeys_counting {keyword : Token} {start : Option Stmt} {condition step : Option Expr}
    {body : Stmt} (hClauses : Clauses w (start, condition, step)) (hTokens : ∀ t ∈ w, t.Obeys p)
    (hKeyword : keyword.Obeys p) (hLoop : keyword.kind.IsLoop) (hBody : body.Obeys p) :
    (counting keyword start condition step body).Obeys p := by
  obtain ⟨_, hStart, hCondition, hStep⟩ := hClauses
  simp only [List.cons_append, List.forall_mem_cons, List.forall_mem_append] at hTokens
  obtain ⟨_, ⟨hFirst, hSecond⟩, hThird⟩ := hTokens
  have hIteration : AllObey p (body :: (step.map Stmt.expr).toList) := by
    refine allObey_iff.mpr (List.forall_mem_cons.mpr ⟨hBody, ?_⟩)
    cases step with
    | none => simp
    | some e => exact List.forall_mem_singleton.mpr (hStep.obeys hThird e rfl)
  have hTest : (condition.getD (.literal (some (.bool true)) keyword.line)).Obeys p := by
    cases condition with
    | none => exact p.bool_true
    | some e => exact hCondition.obeys hSecond e rfl
  refine allObey_iff.mpr (List.forall_mem_append.mpr ⟨hStart.obeys hFirst, ?_⟩)
  exact List.forall_mem_singleton.mpr
    ⟨⟨hKeyword.iterations hLoop, hKeyword.time hLoop⟩, hTest, hIteration⟩

/-- What is derived from tokens as asked for is as asked for. -/
theorem Derives.obeys {nearest : Bool} {part : Part} {ss : List Stmt} (h : Derives nearest part w ss)
    (hTokens : ∀ t ∈ w, t.Obeys p) : AllObey p ss := by
  induction h with
  | expr hSimple => exact ⟨hSimple.obeys hTokens, trivial⟩
  | print hKeyword hExpr _ =>
      simp only [List.cons_append, List.forall_mem_cons, List.forall_mem_append] at hTokens
      exact ⟨⟨hTokens.1.print hKeyword, hExpr.obeys hTokens.2.1⟩, trivial⟩
  | block _ _ _ ih =>
      simp only [List.cons_append, List.forall_mem_cons, List.forall_mem_append] at hTokens
      exact ⟨ih hTokens.2.1, trivial⟩
  | ifThen _ hCondition _ ih =>
      simp only [List.cons_append, List.forall_mem_cons, List.forall_mem_append] at hTokens
      exact ⟨⟨hCondition.obeys hTokens.2.1, (ih hTokens.2.2).1⟩, trivial⟩
  | ifElse _ hCondition _ _ _ _ ihYes ihNo =>
      simp only [List.cons_append, List.forall_mem_cons, List.forall_mem_append] at hTokens
      obtain ⟨_, ⟨hBefore, hYes⟩, _, hNo⟩ := hTokens
      exact ⟨⟨hCondition.obeys hBefore, (ihYes hYes).1, (ihNo hNo).1⟩, trivial⟩
  | whileLoop hKeyword hCondition _ ih =>
      simp only [List.cons_append, List.forall_mem_cons, List.forall_mem_append] at hTokens
      have hLoop : Kind.IsLoop _ := Or.inl hKeyword
      exact ⟨⟨⟨hTokens.1.iterations hLoop, hTokens.1.time hLoop⟩, hCondition.obeys hTokens.2.1,
        (ih hTokens.2.2).1⟩, trivial⟩
  | forLoop hKeyword hClauses _ ih =>
      simp only [List.cons_append, List.forall_mem_cons, List.forall_mem_append] at hTokens
      exact ⟨obeys_counting hClauses hTokens.2.1 hTokens.1 (Or.inr hKeyword) (ih hTokens.2.2).1, trivial⟩
  | varDecl _ hVariable => exact ⟨hVariable.obeys (List.forall_mem_cons.mp hTokens).2, trivial⟩
  | statement _ ih => exact ih hTokens
  | nil => trivial
  | cons _ _ ihHead ihTail =>
      obtain ⟨hHead, hTail⟩ := List.forall_mem_append.mp hTokens
      exact ⟨(ihHead hHead).1, ihTail hTail⟩

end Stmt

/-- A program that is read from tokens as asked for is as asked for. -/
theorem Program.obeys_ofTokens {tokens : List Token}
    (hTokens : ∀ t ∈ (splitEnd tokens).1, t.Obeys p) :
    ∀ s ∈ (ofTokens tokens).program.statements, s.Obeys p := by
  intro s h
  rw [statements_ofTokens, List.mem_filterMap] at h
  obtain ⟨result, hMem, hOk⟩ := h
  cases result with
  | error problem => cases hOk
  | ok s' =>
      cases hOk
      obtain ⟨w, hInfix, hDerives⟩ := derives_of_mem_attempts hMem
      exact (hDerives.obeys fun t ht => hTokens t (hInfix.subset ht)).1

end Lox
