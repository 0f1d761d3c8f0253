import Lox.Proofs.Execution.Provenance
import Lox.Proofs.Grammar.WellFormed

/-! Programs without gaps. Where a program that has been read is run in scopes that hold a value for
every name, every value that it computes is there, and every operator it comes to is one. -/
namespace Lox

/-- Every name that is in scope is bound to a value. -/
def Machine.Present (m : Machine) : Prop := m.scopes.Holds (·.isSome = true)

/-- Values that are there, and faults other than that of an operator that denotes none. -/
def Policy.present : Policy where
  value v := v.isSome = true
  printed _ := True
  fault f := f.cause ≠ .operator
  nil := Option.isSome_some
  binary _ _ _ := Option.isSome_some
  unary _ _ := Option.isSome_some
  printed_of_value _ := trivial

/-- Where every name has a value, only values that are there have been printed. -/
theorem Machine.Present.obeys {m : Machine} (h : m.Present) : m.Obeys .present :=
  ⟨h, fun _ _ => trivial⟩

/-- In a well-formed expression no token can be blamed for denoting no operator. -/
theorem Expr.IsWellFormed.obeys {e : Expr} (h : e.IsWellFormed) : e.Obeys .present := by
  induction e with
  | literal value line => exact h
  | name token => exact Cause.noConfusion
  | assign target value ih => exact ⟨Cause.noConfusion, ih h⟩
  | binary left op right ihLeft ihRight =>
      refine ⟨⟨fun _ => Cause.noConfusion, fun hOp => ?_⟩, ihLeft h.2.1, ihRight h.2.2⟩
      simp [IsWellFormed, hOp] at h
  | logical left op right ihLeft ihRight =>
      exact ⟨fun hOr hAnd => absurd h.1 (not_or.mpr ⟨hOr, hAnd⟩), ihLeft h.2.1, ihRight h.2.2⟩
  | unary op operand ih =>
      refine ⟨⟨fun _ => Cause.noConfusion, fun hOp => ?_⟩, ih h.2⟩
      simp [IsWellFormed, hOp] at h
  | group inner ih => exact ih h

namespace Stmt

variable {run : Run} {s : Stmt} {m n : Machine}

mutual

/-- A statement that the parser could have built has no literal without a value. -/
theorem obeys_of_isWellFormed : (s : Stmt) → s.IsWellFormed → s.Obeys .present
  | .expr _, h => Expr.IsWellFormed.obeys h
  | .print _ _, h => ⟨fun _ => Cause.noConfusion, Expr.IsWellFormed.obeys h⟩
  | .declare _ _ none, _ => trivial
  | .declare _ _ (some _), h => Expr.IsWellFormed.obeys h
  | .block _ body, h => allObey_of_areWellFormed body h
  | .branch _ _ yes none, h => ⟨h.1.obeys, obeys_of_isWellFormed yes h.2.2⟩
  | .branch _ _ yes (some no), h =>
      ⟨h.1.obeys, obeys_of_isWellFormed yes h.2.1.2, obeys_of_isWellFormed no h.2.2.2⟩
  | .loop _ _ body, h =>
      ⟨⟨fun _ => Cause.noConfusion, fun _ => Cause.noConfusion⟩, h.1.obeys, obeys_of_isWellFormed body h.2.2⟩

theorem allObey_of_areWellFormed : (ss : List Stmt) → AreWellFormed ss → AllObey .present ss
  | [], _ => trivial
  | s :: ss, h => ⟨obeys_of_isWellFormed s h.1, allObey_of_areWellFormed ss h.2⟩

end

/-- Running the statement comes to print a value, to store it or to hand it to an operator. -/
inductive Uses (run : Run) (s : Stmt) (m : Machine) (v : Slot) : Prop
  | printed {keyword : Token} {e : Expr} {k : Machine} {c : Chain}
      (hVisits : Visits run s m (.print keyword e) k) (hValue : e.eval k.scopes = .ok v c)
  | declared {name : Text} {token : Token} {e : Expr} {k : Machine} {c : Chain}
      (hVisits : Visits run s m (.declare name token (some e)) k) (hValue : e.eval k.scopes = .ok v c)
  | assigned {target : Token} {value : Expr} {c d : Chain}
      (hComputes : Computes run s m (.assign target value) c) (hValue : value.eval c = .ok v d)
  | left {left right : Expr} {op : Token} {c d : Chain}
      (hComputes : Computes run s m (.binary left op right) c) (hValue : left.eval c = .ok v d)
  | right {left right : Expr} {op : Token} {c c' d : Chain} {a : Slot}
      (hComputes : Computes run s m (.binary left op right) c) (hLeft : left.eval c = .ok a c')
      (hValue : right.eval c' = .ok v d)
  | operand {op : Token} {operand : Expr} {c d : Chain}
      (hComputes : Computes run s m (.unary op operand) c) (hValue : operand.eval c = .ok v d)

/-- A well-formed statement only uses values that are there. -/
theorem Uses.isSome {v : Slot} (h : Uses run s m v) (hForm : s.IsWellFormed) (hPresent : m.Present) :
    v.isSome = true := by
  have hObeys := obeys_of_isWellFormed s hForm
  have hYields {e : Expr} {c d : Chain} (hExpr : e.Obeys .present)
      (hScopes : c.Holds Policy.present.value) (hValue : e.eval c = .ok v d) : v.isSome = true :=
    (Expr.obeys_eval hExpr).value c v d hScopes hValue
  cases h with
  | printed hVisits hValue =>
      obtain ⟨hPart, hReached⟩ := hVisits.obeys hObeys hPresent.obeys
      exact hYields hPart.2 hReached.scopes hValue
  | declared hVisits hValue =>
      obtain ⟨hPart, hReached⟩ := hVisits.obeys hObeys hPresent.obeys
      exact hYields hPart hReached.scopes hValue
  | assigned hComputes hValue =>
      obtain ⟨hExpr, hScopes⟩ := hComputes.obeys hObeys hPresent.obeys
      exact hYields hExpr.2 hScopes hValue
  | left hComputes hValue =>
      obtain ⟨hExpr, hScopes⟩ := hComputes.obeys hObeys hPresent.obeys
      exact hYields hExpr.2.1 hScopes hValue
  | right hComputes hLeft hValue =>
      obtain ⟨hExpr, hScopes⟩ := hComputes.obeys hObeys hPresent.obeys
      exact hYields hExpr.2.2 ((Expr.obeys_eval hExpr.2.1).of_ok hScopes hLeft) hValue
  | operand hComputes hValue =>
      obtain ⟨hExpr, hScopes⟩ := hComputes.obeys hObeys hPresent.obeys
      exact hYields hExpr.2 hScopes hValue

/-- A well-formed statement does not fail at an operator that denotes none. -/
theorem cause_ne_operator {f : Fault} (hForm : s.IsWellFormed) (hPresent : m.Present)
    (h : s.exec run m = .error (.fault f) n) : f.cause ≠ .operator :=
  (upholds_exec s (obeys_of_isWellFormed s hForm)).error m (.fault f) n hPresent.obeys h

end Stmt

/-- A name is undefined, an operator refuses its operands, the budget is exhausted, or output fails. -/
inductive Diagnostic.IsOrdinary (d : Diagnostic) : Prop
  | undefined (hCode : d.code = .undefined)
  | operands (e : OperandError) (hCode : d.code = .type) (hMessage : d.message = e.message)
  | budget (hCode : d.code = .budget)
  | io (hCode : d.code = .io)

/-- All faults are ordinary but that of an operator that denotes none. -/
theorem Fault.isOrdinary {f : Fault} (h : f.cause ≠ .operator) : f.diagnostic.IsOrdinary := by
  obtain ⟨cause, token⟩ := f
  cases cause with
  | undefined => exact .undefined rfl
  | operands e => exact .operands e rfl rfl
  | operator => exact absurd rfl h
  | iterations allowed => exact .budget rfl
  | time milliseconds => exact .budget rfl
  | write reason => exact .io rfl

namespace Machine

variable {run : Run} {m : Machine}

/-- A run of well-formed statements leaves no gap, does not come down and reports nothing out of the
ordinary. -/
theorem runAll_present {ss : List Stmt} (hForm : ∀ s ∈ ss, s.IsWellFormed) (hPresent : m.Present) :
    (runAll run ss m).2.Present ∧ (runAll run ss m).1.error ≠ some .crashed ∧
      ∀ d ∈ (runAll run ss m).1.diagnostics, d.IsOrdinary := by
  obtain ⟨hEnd, hResult⟩ := runAll_obeys run
    (fun s hMem => Stmt.obeys_of_isWellFormed s (hForm s hMem)) hPresent.obeys
  refine ⟨hEnd.scopes, fun hCrash => absurd (hResult.crash hCrash) Bool.false_ne_true, fun d hMem => ?_⟩
  obtain ⟨f, hCause, rfl⟩ := hResult.reports d hMem
  exact Fault.isOrdinary hCause

/-- Programs that are read have no gaps. Whatever the tokens hold, every statement is well formed.
Hence in every run from scopes that hold a value for every name, under any budget and in any
surroundings: each statement that is attempted is run in such scopes, only prints, stores and hands to
operators values that are there, and is not stopped by an operator that denotes none; the run leaves
such scopes behind and does not come down; and whatever it reports is ordinary. -/
theorem execute_of_read (tokens : List Token) :
    let p := (Program.ofTokens tokens).program
    (∀ s ∈ p.statements, s.IsWellFormed) ∧
      ∀ host budget runId horizon m, Machine.Present m →
        let run : Run := ⟨host, budget, runId, horizon, m.progress⟩
        let ended := execute host budget runId horizon p m
        (∀ before s later n, p.statements = before ++ s :: later →
          (runAll run before (m.begun runId p)).1.error = none →
          (runAll run before (m.begun runId p)).2.poll run = (none, n) →
          n.Present ∧ (∀ v, s.Uses run n v → v.isSome = true) ∧
            ∀ f k, s.exec run n = .error (.fault f) k → f.cause ≠ .operator) ∧
        ended.2.Present ∧ ended.1.error ≠ some .crashed ∧
          ∀ d ∈ ended.1.diagnostics, d.IsOrdinary := by
  intro p
  have hForm : ∀ s ∈ p.statements, s.IsWellFormed := fun s h => Program.isWellFormed_of_mem h
  refine ⟨hForm, fun host budget runId horizon m hPresent => ?_⟩
  intro run ended
  have hBegun : (m.begun runId p).Present := hPresent
  refine ⟨fun before s later n hSplit hReached hPoll => ?_, runAll_present hForm hBegun⟩
  rw [hSplit] at hForm
  obtain ⟨hBefore, hRest⟩ := List.forall_mem_append.mp hForm
  have hHere : s.IsWellFormed := hRest s List.mem_cons_self
  have hPolled : n.Present := by
    rw [Machine.Present, scopes_of_poll hPoll]
    exact (runAll_present hBefore hBegun).1
  exact ⟨hPolled, fun v hUses => hUses.isSome hHere hPolled,
    fun f k hRan => Stmt.cause_ne_operator hHere hPolled hRan⟩

/-- The tokens of `print a;` with a number in place of `a` that has lost its value. -/
theorem execute_of_read_missing :
    let token (kind : Kind) : Token := ⟨kind, "a", none, 1⟩
    let tokens := [token .printWord, token .number, token .semicolon]
    Machine.initial.Present ∧ ∀ host budget runId horizon,
      let ended := execute host budget runId horizon (Program.ofTokens tokens).program Machine.initial
      ended.1.error ≠ some .crashed ∧ ∀ d ∈ ended.1.diagnostics, d.IsOrdinary := by
  intro token tokens
  have hPresent : Machine.initial.Present :=
    List.forall_mem_singleton.mpr (List.forall_mem_nil _)
  exact ⟨hPresent, fun host budget runId horizon =>
    ((execute_of_read tokens).2 host budget runId horizon Machine.initial hPresent).2.2⟩

end Machine
end Lox
