import Lox.Proofs.Format.Plain

/-! The grammar does not look at lines: tokens that differ only in their lines derive trees that
differ only in theirs. -/
namespace Lox

namespace Expr

/-- A derivation moved to tokens on other lines. -/
theorem Derives.of_unlined {rank : Rank} {w : List Token} {e : Expr}
    (h : Derives rank (w.map Token.unlined) e) : ∃ e', Derives rank w e' ∧ e'.unlined = e.unlined := by
  generalize hTokens : w.map Token.unlined = w₀ at h
  induction h generalizing w with
  | @assign target equal w₀ value hTarget hEqual _ ih =>
      obtain ⟨target', w', rfl, rfl, hRest⟩ := List.map_eq_cons_iff.mp hTokens
      obtain ⟨equal', w, rfl, rfl, hValue⟩ := List.map_eq_cons_iff.mp hRest
      obtain ⟨value', hValue, hEq⟩ := ih hValue
      refine ⟨_, .assign hTarget hEqual hValue, ?_⟩
      simpa [unlined, rewrite] using hEq
  | loosest _ ih =>
      obtain ⟨e', h, hEq⟩ := ih hTokens
      exact ⟨e', .loosest h, hEq⟩
  | operand _ ih =>
      obtain ⟨e', h, hEq⟩ := ih hTokens
      exact ⟨e', .operand h, hEq⟩
  | @chain level node w₁ w₂ left right op _ hOp _ ihLeft ihRight =>
      obtain ⟨w, v', rfl, hLeft, hRest⟩ := List.map_eq_append_iff.mp hTokens
      obtain ⟨op', v, rfl, rfl, hRight⟩ := List.map_eq_cons_iff.mp hRest
      obtain ⟨left', hLeft, hEqLeft⟩ := ihLeft hLeft
      obtain ⟨right', hRight, hEqRight⟩ := ihRight hRight
      refine ⟨_, .chain hLeft hOp hRight, ?_⟩
      rw [unlined] at hEqLeft hEqRight
      obtain ⟨-, rfl⟩ := Level.forms_iff.mp hOp
      cases level <;> simpa [unlined, rewrite, Level.node] using ⟨hEqLeft, hEqRight⟩
  | @unary op w₀ operand hOp _ ih =>
      obtain ⟨op', w, rfl, rfl, hRest⟩ := List.map_eq_cons_iff.mp hTokens
      obtain ⟨operand', hOperand, hEq⟩ := ih hRest
      refine ⟨_, .unary hOp hOperand, ?_⟩
      simpa [unlined, rewrite] using hEq
  | primary _ ih =>
      obtain ⟨e', h, hEq⟩ := ih hTokens
      exact ⟨e', .primary h, hEq⟩
  | literal hKind =>
      obtain ⟨t, w, rfl, rfl, hNil⟩ := List.map_eq_cons_iff.mp hTokens
      obtain rfl := List.map_eq_nil_iff.mp hNil
      exact ⟨_, .literal hKind, rfl⟩
  | name hKind =>
      obtain ⟨t, w, rfl, rfl, hNil⟩ := List.map_eq_cons_iff.mp hTokens
      obtain rfl := List.map_eq_nil_iff.mp hNil
      exact ⟨_, .name hKind, rfl⟩
  | @group opening closing w₀ inner hOpening _ hClosing ih =>
      obtain ⟨v, v', rfl, hFront, hLast⟩ := List.map_eq_append_iff.mp hTokens
      obtain ⟨opening', v, rfl, rfl, hInner⟩ := List.map_eq_cons_iff.mp hFront
      obtain ⟨closing', v', rfl, rfl, hNil⟩ := List.map_eq_cons_iff.mp hLast
      obtain rfl := List.map_eq_nil_iff.mp hNil
      obtain ⟨inner', hInner, hEq⟩ := ih hInner
      refine ⟨_, .group hOpening hInner hClosing, ?_⟩
      simpa [unlined, rewrite] using hEq

end Expr

namespace Stmt

/-- A condition can be read on any lines. -/
theorem Condition.of_unlined {w : List Token} {e : Expr} (h : Condition (w.map Token.unlined) e) :
    ∃ e', Condition w e' ∧ e'.unlined = e.unlined := by
  generalize hTokens : w.map Token.unlined = w₀ at h
  cases h with
  | @mk opening closing w₀ _ hOpening hExpr hClosing =>
      obtain ⟨v, v', rfl, hFront, hLast⟩ := List.map_eq_append_iff.mp hTokens
      obtain ⟨opening', v, rfl, rfl, rfl⟩ := List.map_eq_cons_iff.mp hFront
      obtain ⟨closing', v', rfl, rfl, hNil⟩ := List.map_eq_cons_iff.mp hLast
      obtain rfl := List.map_eq_nil_iff.mp hNil
      obtain ⟨e', hExpr, hEq⟩ := hExpr.of_unlined
      exact ⟨e', .mk hOpening hExpr hClosing, hEq⟩

/-- A simple statement can be read on any lines. -/
theorem Simple.of_unlined {w : List Token} {s : Stmt} (h : Simple (w.map Token.unlined) s) :
    ∃ s', Simple w s' ∧ s'.unlined = s.unlined := by
  generalize hTokens : w.map Token.unlined = w₀ at h
  cases h with
  | mk hExpr hSemicolon =>
      obtain ⟨v, v', rfl, rfl, hLast⟩ := List.map_eq_append_iff.mp hTokens
      obtain ⟨semicolon', v', rfl, rfl, hNil⟩ := List.map_eq_cons_iff.mp hLast
      obtain rfl := List.map_eq_nil_iff.mp hNil
      obtain ⟨e', hExpr, hEq⟩ := hExpr.of_unlined
      refine ⟨_, .mk hExpr hSemicolon, ?_⟩
      simpa [unlined, rewrite, Expr.unlined] using hEq

/-- A declaration can be read on any lines. -/
theorem Variable.of_unlined {w : List Token} {s : Stmt} (h : Variable (w.map Token.unlined) s) :
    ∃ s', Variable w s' ∧ s'.unlined = s.unlined := by
  generalize hTokens : w.map Token.unlined = w₀ at h
  cases h with
  | bare hName hSemicolon =>
      obtain ⟨name', v, rfl, rfl, hRest⟩ := List.map_eq_cons_iff.mp hTokens
      obtain ⟨semicolon', v', rfl, rfl, hNil⟩ := List.map_eq_cons_iff.mp hRest
      obtain rfl := List.map_eq_nil_iff.mp hNil
      exact ⟨_, .bare hName hSemicolon, rfl⟩
  | initialized hName hEqual hValue hSemicolon =>
      obtain ⟨v, v', rfl, hFront, hLast⟩ := List.map_eq_append_iff.mp hTokens
      obtain ⟨name', v₁, rfl, rfl, hRest⟩ := List.map_eq_cons_iff.mp hFront
      obtain ⟨equal', v₂, rfl, rfl, rfl⟩ := List.map_eq_cons_iff.mp hRest
      obtain ⟨semicolon', v', rfl, rfl, hNil⟩ := List.map_eq_cons_iff.mp hLast
      obtain rfl := List.map_eq_nil_iff.mp hNil
      obtain ⟨value', hValue, hEq⟩ := hValue.of_unlined
      refine ⟨_, .initialized hName hEqual hValue hSemicolon, ?_⟩
      simpa [unlined, rewrite, Expr.unlined] using hEq

theorem Start.of_unlined {w : List Token} {start : Option Stmt}
    (h : Start (w.map Token.unlined) start) :
    ∃ start', Start w start' ∧ start'.map unlined = start.map unlined := by
  generalize hTokens : w.map Token.unlined = w₀ at h
  cases h with
  | missing hSemicolon =>
      obtain ⟨semicolon', v, rfl, rfl, hNil⟩ := List.map_eq_cons_iff.mp hTokens
      obtain rfl := List.map_eq_nil_iff.mp hNil
      exact ⟨none, .missing hSemicolon, rfl⟩
  | declaration hVar hVariable =>
      obtain ⟨var', v, rfl, rfl, rfl⟩ := List.map_eq_cons_iff.mp hTokens
      obtain ⟨s', hVariable, hEq⟩ := hVariable.of_unlined
      exact ⟨some s', .declaration hVar hVariable, by simp [hEq]⟩
  | expression hSimple =>
      subst hTokens
      obtain ⟨s', hSimple, hEq⟩ := hSimple.of_unlined
      exact ⟨some s', .expression hSimple, by simp [hEq]⟩

theorem Clause.of_unlined {delimiter : Kind} {w : List Token} {clause : Option Expr}
    (h : Clause delimiter (w.map Token.unlined) clause) :
    ∃ clause', Clause delimiter w clause' ∧ clause'.map Expr.unlined = clause.map Expr.unlined := by
  generalize hTokens : w.map Token.unlined = w₀ at h
  cases h with
  | missing hDelimiter =>
      obtain ⟨t', v, rfl, rfl, hNil⟩ := List.map_eq_cons_iff.mp hTokens
      obtain rfl := List.map_eq_nil_iff.mp hNil
      exact ⟨none, .missing hDelimiter, rfl⟩
  | expression hExpr hDelimiter =>
      obtain ⟨v, v', rfl, rfl, hLast⟩ := List.map_eq_append_iff.mp hTokens
      obtain ⟨t', v', rfl, rfl, hNil⟩ := List.map_eq_cons_iff.mp hLast
      obtain rfl := List.map_eq_nil_iff.mp hNil
      obtain ⟨e', hExpr, hEq⟩ := hExpr.of_unlined
      exact ⟨some e', .expression hExpr hDelimiter, by simp [hEq]⟩

/-- The clauses of a counting loop can be read on any lines. -/
theorem Clauses.of_unlined {w : List Token} {start : Option Stmt} {condition step : Option Expr}
    (h : Clauses (w.map Token.unlined) (start, condition, step)) :
    ∃ start' condition' step', Clauses w (start', condition', step') ∧
      start'.map unlined = start.map unlined ∧
      condition'.map Expr.unlined = condition.map Expr.unlined ∧
      step'.map Expr.unlined = step.map Expr.unlined := by
  generalize hTokens : w.map Token.unlined = w₀ at h
  cases h with
  | mk hOpening hStart hCondition hStep =>
      obtain ⟨v, v₃, rfl, hFront, rfl⟩ := List.map_eq_append_iff.mp hTokens
      obtain ⟨v', v₂, rfl, hFirst, rfl⟩ := List.map_eq_append_iff.mp hFront
      obtain ⟨opening', v₁, rfl, rfl, rfl⟩ := List.map_eq_cons_iff.mp hFirst
      obtain ⟨start', hStart, hEqStart⟩ := hStart.of_unlined
      obtain ⟨condition', hCondition, hEqCondition⟩ := hCondition.of_unlined
      obtain ⟨step', hStep, hEqStep⟩ := hStep.of_unlined
      exact ⟨start', condition', step', .mk hOpening hStart hCondition hStep, hEqStart,
        hEqCondition, hEqStep⟩

/-- A counting loop without lines is built from its parts without lines. -/
theorem unlined_counting (keyword : Token) (start : Option Stmt) (condition step : Option Expr)
    (body : Stmt) :
    (counting keyword start condition step body).unlined =
      .block 0 ((start.map unlined).toList ++ [.loop keyword.unlined
        ((condition.map Expr.unlined).getD (.literal (some (.bool true)) 0))
        (.block 0 (body.unlined :: ((step.map Expr.unlined).map Stmt.expr).toList))]) := by
  cases start <;> cases condition <;> cases step <;>
    simp [counting, unlined, Expr.unlined, rewrite, rewriteAll, Expr.rewrite]

theorem unlined_block (line : Int) (body : List Stmt) :
    (Stmt.block line body).unlined = .block 0 (body.map unlined) := by
  rw [unlined, rewrite, rewriteAll_eq_map]
  rfl

theorem exists_of_singleton {P : List Stmt → Prop} {s : Stmt}
    (h : ∃ ss', P ss' ∧ ss'.map unlined = [s].map unlined) :
    ∃ s', P [s'] ∧ s'.unlined = s.unlined := by
  obtain ⟨ss', hSome, hEq⟩ := h
  obtain ⟨s', rfl, hOne⟩ := List.map_eq_singleton_iff.mp hEq
  exact ⟨s', hSome, hOne⟩

/-- A derivation moved to tokens on other lines. -/
theorem Derives.of_unlined {nearest : Bool} {part : Part} {w : List Token} {ss : List Stmt}
    (h : Derives nearest part (w.map Token.unlined) ss) :
    ∃ ss', Derives nearest part w ss' ∧ ss'.map unlined = ss.map unlined := by
  generalize hTokens : w.map Token.unlined = w₀ at h
  induction h generalizing w with
  | expr hSimple =>
      subst hTokens
      obtain ⟨s', hSimple, hEq⟩ := hSimple.of_unlined
      exact ⟨[s'], .expr hSimple, by simp [hEq]⟩
  | print hKeyword hExpr hSemicolon =>
      obtain ⟨v, v', rfl, hFront, hLast⟩ := List.map_eq_append_iff.mp hTokens
      obtain ⟨keyword', v, rfl, rfl, rfl⟩ := List.map_eq_cons_iff.mp hFront
      obtain ⟨semicolon', v', rfl, rfl, hNil⟩ := List.map_eq_cons_iff.mp hLast
      obtain rfl := List.map_eq_nil_iff.mp hNil
      obtain ⟨e', hExpr, hEq⟩ := hExpr.of_unlined
      refine ⟨_, .print hKeyword hExpr hSemicolon, ?_⟩
      simpa [unlined, rewrite, Expr.unlined] using hEq
  | block hOpening _ hClosing ih =>
      obtain ⟨v, v', rfl, hFront, hLast⟩ := List.map_eq_append_iff.mp hTokens
      obtain ⟨opening', v, rfl, rfl, hBody⟩ := List.map_eq_cons_iff.mp hFront
      obtain ⟨closing', v', rfl, rfl, hNil⟩ := List.map_eq_cons_iff.mp hLast
      obtain rfl := List.map_eq_nil_iff.mp hNil
      obtain ⟨body', hBody, hEq⟩ := ih hBody
      refine ⟨_, .block hOpening hBody hClosing, ?_⟩
      simpa [unlined_block] using hEq
  | ifThen hKeyword hCondition _ ih =>
      obtain ⟨v, v', rfl, hFront, hYes⟩ := List.map_eq_append_iff.mp hTokens
      obtain ⟨keyword', v, rfl, rfl, rfl⟩ := List.map_eq_cons_iff.mp hFront
      obtain ⟨condition', hCondition, hEq⟩ := hCondition.of_unlined
      obtain ⟨yes', hYes, hEqYes⟩ := exists_of_singleton (ih hYes)
      refine ⟨_, .ifThen hKeyword hCondition hYes, ?_⟩
      simp_all [unlined, rewrite, Expr.unlined]
  | ifElse hKeyword hCondition _ hNearest hOther _ ihYes ihNo =>
      obtain ⟨v, v', rfl, hFront, hRest⟩ := List.map_eq_append_iff.mp hTokens
      obtain ⟨v, v₁, rfl, hFirst, hYes⟩ := List.map_eq_append_iff.mp hFront
      obtain ⟨keyword', v, rfl, rfl, rfl⟩ := List.map_eq_cons_iff.mp hFirst
      obtain ⟨other', v₂, rfl, rfl, hNo⟩ := List.map_eq_cons_iff.mp hRest
      obtain ⟨condition', hCondition, hEq⟩ := hCondition.of_unlined
      obtain ⟨yes', hYes, hEqYes⟩ := exists_of_singleton (ihYes hYes)
      obtain ⟨no', hNo, hEqNo⟩ := exists_of_singleton (ihNo hNo)
      refine ⟨_, .ifElse hKeyword hCondition hYes hNearest hOther hNo, ?_⟩
      simp_all [unlined, rewrite, Expr.unlined]
  | whileLoop hKeyword hCondition _ ih =>
      obtain ⟨v, v', rfl, hFront, hBody⟩ := List.map_eq_append_iff.mp hTokens
      obtain ⟨keyword', v, rfl, rfl, rfl⟩ := List.map_eq_cons_iff.mp hFront
      obtain ⟨condition', hCondition, hEq⟩ := hCondition.of_unlined
      obtain ⟨body', hBody, hEqBody⟩ := exists_of_singleton (ih hBody)
      refine ⟨_, .whileLoop hKeyword hCondition hBody, ?_⟩
      simp_all [unlined, rewrite, Expr.unlined]
  | @forLoop keyword _ _ start condition step body _ hKeyword hClauses _ ih =>
      obtain ⟨v, v', rfl, hFront, hBody⟩ := List.map_eq_append_iff.mp hTokens
      obtain ⟨keyword', v, rfl, rfl, rfl⟩ := List.map_eq_cons_iff.mp hFront
      obtain ⟨start', condition', step', hClauses, hEqStart, hEqCondition, hEqStep⟩ :=
        hClauses.of_unlined
      obtain ⟨body', hBody, hEqBody⟩ := exists_of_singleton (ih hBody)
      refine ⟨_, .forLoop hKeyword hClauses hBody, ?_⟩
      have hTree := unlined_counting keyword' start' condition' step' body'
      have hTree' := unlined_counting keyword'.unlined start condition step body
      rw [hEqStart, hEqCondition, hEqStep, hEqBody] at hTree
      exact congrArg (fun s => [s]) (hTree.trans hTree'.symm)
  | varDecl hVar hVariable =>
      obtain ⟨var', v, rfl, rfl, rfl⟩ := List.map_eq_cons_iff.mp hTokens
      obtain ⟨s', hVariable, hEq⟩ := hVariable.of_unlined
      exact ⟨[s'], .varDecl hVar hVariable, by simp [hEq]⟩
  | statement _ ih =>
      obtain ⟨s', h, hEq⟩ := exists_of_singleton (ih hTokens)
      exact ⟨[s'], .statement h, by simp [hEq]⟩
  | nil =>
      obtain rfl := List.map_eq_nil_iff.mp hTokens
      exact ⟨[], .nil, rfl⟩
  | cons _ _ ihHead ihTail =>
      obtain ⟨v, v', rfl, hHead, hTail⟩ := List.map_eq_append_iff.mp hTokens
      obtain ⟨s', hHead, hEqHead⟩ := exists_of_singleton (ihHead hHead)
      obtain ⟨body', hTail, hEqTail⟩ := ihTail hTail
      exact ⟨s' :: body', .cons hHead hTail, by simp [hEqHead, hEqTail]⟩

end Stmt
end Lox
