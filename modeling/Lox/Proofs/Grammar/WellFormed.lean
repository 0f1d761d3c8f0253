import Lox.Proofs.Execution.Counting
import Lox.Proofs.Format.Program

/-! The form of the trees that are read. Whatever the tokens hold, there is an operator at every
operator's place, a value in every literal, and no declaration as a branch or a body. -/
namespace Lox

namespace Expr

/-- Every literal has a value, and every operator denotes one. -/
def IsWellFormed : Expr → Prop
  | .literal value _ => value.isSome = true
  | .name _ => True
  | .assign _ value => value.IsWellFormed
  | .binary left op right =>
    (BinaryOp.ofKind? op.kind).isSome = true ∧ left.IsWellFormed ∧ right.IsWellFormed
  | .logical left op right =>
    (op.kind = .orWord ∨ op.kind = .andWord) ∧ left.IsWellFormed ∧ right.IsWellFormed
  | .unary op operand => (UnaryOp.ofKind? op.kind).isSome = true ∧ operand.IsWellFormed
  | .group inner => inner.IsWellFormed

/-- The operators of all levels but those of `or` and `and` denote operators on values. -/
theorem isSome_ofKind? {level : Level} (h : level ≠ .or ∧ level ≠ .and) :
    ∀ k ∈ level.operators, (BinaryOp.ofKind? k).isSome = true := by
  cases level <;> revert h <;> decide

theorem isWellFormed_node {level : Level} {left right : Expr} {op : Token}
    (hOp : op.kind ∈ level.operators) (hLeft : left.IsWellFormed) (hRight : right.IsWellFormed) :
    (level.node left op right).IsWellFormed := by
  cases level with
  | or => exact ⟨Or.inl (List.mem_singleton.mp hOp), hLeft, hRight⟩
  | and => exact ⟨Or.inr (List.mem_singleton.mp hOp), hLeft, hRight⟩
  | _ => exact ⟨isSome_ofKind? (by decide) _ hOp, hLeft, hRight⟩

/-- Every expression of the grammar is well formed. -/
theorem Derives.isWellFormed {rank : Rank} {w : List Token} {e : Expr} (h : Derives rank w e) :
    e.IsWellFormed := by
  induction h with
  | assign _ _ _ ih => exact ih
  | loosest _ ih => exact ih
  | operand _ ih => exact ih
  | chain _ hForms _ ihLeft ihRight =>
      obtain ⟨hOp, rfl⟩ := Level.forms_iff.mp hForms
      exact isWellFormed_node hOp ihLeft ihRight
  | unary hOp _ ih =>
      have hKinds : ∀ k ∈ unaryOperators, (UnaryOp.ofKind? k).isSome = true := by decide
      exact ⟨hKinds _ (mem_unaryOperators.mpr hOp), ih⟩
  | primary _ ih => exact ih
  | literal => exact Option.isSome_some
  | name => trivial
  | group _ _ _ ih => exact ih

end Expr

namespace Stmt

mutual

/-- Every expression is well formed, and no branch or body is a declaration. -/
def IsWellFormed : Stmt → Prop
  | .expr e => e.IsWellFormed
  | .print _ e => e.IsWellFormed
  | .declare _ _ none => True
  | .declare _ _ (some e) => e.IsWellFormed
  | .block _ body => AreWellFormed body
  | .branch _ condition yes none =>
    condition.IsWellFormed ∧ yes.declaresHere = false ∧ yes.IsWellFormed
  | .branch _ condition yes (some no) =>
    condition.IsWellFormed ∧ (yes.declaresHere = false ∧ yes.IsWellFormed) ∧
      (no.declaresHere = false ∧ no.IsWellFormed)
  | .loop _ condition body =>
    condition.IsWellFormed ∧ body.declaresHere = false ∧ body.IsWellFormed

def AreWellFormed : List Stmt → Prop
  | [] => True
  | s :: rest => s.IsWellFormed ∧ AreWellFormed rest

end

/-- Statements are well formed if each of them is. -/
theorem areWellFormed_iff {ss : List Stmt} : AreWellFormed ss ↔ ∀ s ∈ ss, s.IsWellFormed := by
  induction ss with
  | nil => simp [AreWellFormed]
  | cons s ss ih => rw [AreWellFormed, ih, List.forall_mem_cons]

theorem Variable.isWellFormed {w : List Token} {s : Stmt} (h : Variable w s) : s.IsWellFormed := by
  cases h with
  | bare => trivial
  | initialized _ _ hValue => exact hValue.isWellFormed

/-- Every simple statement of the grammar is well formed. -/
theorem Simple.isWellFormed {w : List Token} {s : Stmt} (h : Simple w s) : s.IsWellFormed := by
  cases h with
  | mk hExpr => exact hExpr.isWellFormed

theorem Condition.isWellFormed {w : List Token} {e : Expr} (h : Condition w e) : e.IsWellFormed := by
  cases h with
  | mk _ hExpr => exact hExpr.isWellFormed

theorem Start.areWellFormed {w : List Token} {start : Option Stmt} (h : Start w start) :
    ∀ s ∈ start.toList, s.IsWellFormed := by
  cases h with
  | missing => simp
  | declaration _ hVariable => simpa using hVariable.isWellFormed
  | expression hSimple => simpa using hSimple.isWellFormed

theorem Clause.isWellFormed {delimiter : Kind} {w : List Token} {clause : Option Expr}
    (h : Clause delimiter w clause) : ∀ e ∈ clause, e.IsWellFormed := by
  cases h with
  | missing => simp
  | expression hExpr => simpa using hExpr.isWellFormed

/-- A counting loop stands for a well-formed block. -/
theorem isWellFormed_counting {keyword : Token} {c : List Token} {start : Option Stmt}
    {condition step : Option Expr} {body : Stmt} (hClauses : Clauses c (start, condition, step))
    (hBody : body.IsWellFormed) : (counting keyword start condition step body).IsWellFormed := by
  obtain ⟨_, hStart, hCondition, hStep⟩ := hClauses
  have hIteration : AreWellFormed (body :: (step.map Stmt.expr).toList) := by
    refine areWellFormed_iff.mpr (List.forall_mem_cons.mpr ⟨hBody, ?_⟩)
    cases step with
    | none => simp
    | some e => exact List.forall_mem_singleton.mpr (hStep.isWellFormed e rfl)
  have hTest : (condition.getD (.literal (some (.bool true)) keyword.line)).IsWellFormed := by
    cases condition with
    | none => exact Option.isSome_some
    | some e => exact hCondition.isWellFormed e rfl
  refine areWellFormed_iff.mpr (List.forall_mem_append.mpr ⟨hStart.areWellFormed, ?_⟩)
  exact List.forall_mem_singleton.mpr ⟨hTest, rfl, hIteration⟩

/-- What is derived is well formed. -/
theorem Derives.isWellFormed {nearest : Bool} {part : Part} {w : List Token} {ss : List Stmt}
    (h : Derives nearest part w ss) : AreWellFormed ss := by
  induction h with
  | expr hSimple => exact ⟨hSimple.isWellFormed, trivial⟩
  | print _ hExpr _ => exact ⟨hExpr.isWellFormed, trivial⟩
  | block _ _ _ ih => exact ⟨ih, trivial⟩
  | ifThen _ hCondition hYes ih =>
      have hPlain := hYes.declaresHere rfl _ List.mem_cons_self
      exact ⟨⟨hCondition.isWellFormed, hPlain, ih.1⟩, trivial⟩
  | ifElse _ hCondition hYes _ _ hNo ihYes ihNo =>
      have hPlain := hYes.declaresHere rfl _ List.mem_cons_self
      have hPlain' := hNo.declaresHere rfl _ List.mem_cons_self
      exact ⟨⟨hCondition.isWellFormed, ⟨hPlain, ihYes.1⟩, hPlain', ihNo.1⟩, trivial⟩
  | whileLoop _ hCondition hBody ih =>
      have hPlain := hBody.declaresHere rfl _ List.mem_cons_self
      exact ⟨⟨hCondition.isWellFormed, hPlain, ih.1⟩, trivial⟩
  | forLoop _ hClauses _ ih => exact ⟨isWellFormed_counting hClauses ih.1, trivial⟩
  | varDecl _ hVariable => exact ⟨hVariable.isWellFormed, trivial⟩
  | statement _ ih => exact ih
  | nil => trivial
  | cons _ _ ihHead ihTail => exact ⟨ihHead.1, ihTail⟩

end Stmt

/-- Every statement that some tokens are read as is well formed, whatever the tokens hold. -/
theorem Program.isWellFormed_of_mem {tokens : List Token} {s : Stmt}
    (h : s ∈ (ofTokens tokens).program.statements) : s.IsWellFormed := by
  rw [statements_ofTokens, List.mem_filterMap] at h
  obtain ⟨result, hMem, hOk⟩ := h
  cases result with
  | error problem => cases hOk
  | ok s' =>
      cases hOk
      obtain ⟨w, -, hDerives⟩ := derives_of_mem_attempts hMem
      exact hDerives.isWellFormed.1

end Lox
