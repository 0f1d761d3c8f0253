import Lox.Proofs.Execution.Tracing

/-! Where values and faults come from. What is asked of values holds of all that a run binds, computes
and prints if it holds of the literals of the program and of what is bound already, for operators keep
it. What is asked of faults is asked of each token of the program that may be blamed for one. -/
namespace Lox

def Scope.Holds (P : Slot → Prop) (s : Scope) : Prop := ∀ binding ∈ s, P binding.2

section Holding

variable {P : Slot → Prop} {name : Text} {v : Slot}

theorem Scope.Holds.define {s : Scope} (h : s.Holds P) (name : Text) (hValue : P v) :
    (s.define name v).Holds P := by
  induction s with
  | nil => exact List.forall_mem_singleton.mpr hValue
  | cons binding s ih =>
      obtain ⟨hFirst, hRest⟩ := List.forall_mem_cons.mp h
      rw [Scope.define]
      split
      · exact List.forall_mem_cons.mpr ⟨hValue, hRest⟩
      · exact List.forall_mem_cons.mpr ⟨hFirst, ih hRest⟩

theorem Scope.Holds.find? {s : Scope} (h : s.Holds P) (hFind : s.find? name = some v) : P v := by
  induction s with
  | nil => cases hFind
  | cons binding s ih =>
      obtain ⟨hFirst, hRest⟩ := List.forall_mem_cons.mp h
      rw [Scope.find?_cons] at hFind
      split at hFind
      · cases hFind
        exact hFirst
      · exact ih hRest hFind

namespace Chain

variable {c d : Chain}

/-- Every name is bound to a value with a property in every scope. -/
def Holds (P : Slot → Prop) (c : Chain) : Prop := ∀ s ∈ c.scopes, s.Holds P

theorem holds_empty : Chain.empty.Holds P := List.forall_mem_singleton.mpr (List.forall_mem_nil _)

theorem Holds.find? (h : c.Holds P) (hFind : c.find? name = some v) : P v := by
  obtain ⟨s, hMem, hFound⟩ := List.exists_of_findSome?_eq_some hFind
  exact (h s hMem).find? hFound

theorem Holds.define (h : c.Holds P) (name : Text) (hValue : P v) : (c.define name v).Holds P := by
  obtain ⟨hCurrent, hOuter⟩ := List.forall_mem_cons.mp h
  exact List.forall_mem_cons.mpr ⟨hCurrent.define name hValue, hOuter⟩

/-- Assignment replaces one value by one with the property. -/
theorem holds_assignIn {ss ts : List Scope} (h : ∀ s ∈ ss, s.Holds P) (hValue : P v)
    (hAssign : assignIn name v ss = some ts) : ∀ s ∈ ts, s.Holds P := by
  induction ss generalizing ts with
  | nil => cases hAssign
  | cons s ss ih =>
      obtain ⟨hFirst, hRest⟩ := List.forall_mem_cons.mp h
      rw [assignIn] at hAssign
      split at hAssign
      · cases hAssign
        exact List.forall_mem_cons.mpr ⟨hFirst.define name hValue, hRest⟩
      · obtain ⟨ts, hTail, rfl⟩ := Option.map_eq_some_iff.mp hAssign
        exact List.forall_mem_cons.mpr ⟨hFirst, ih hRest hTail⟩

/-- Assignment keeps a property of all values if the new one has it. -/
theorem Holds.assign? (h : c.Holds P) (hValue : P v) (hAssign : c.assign? name v = some d) :
    d.Holds P := by
  rw [Chain.assign?] at hAssign
  split at hAssign
  next s ss hScopes =>
    cases hAssign
    exact holds_assignIn h hValue hScopes
  next => cases hAssign

theorem Holds.push (h : c.Holds P) : c.push.Holds P :=
  List.forall_mem_cons.mpr ⟨List.forall_mem_nil _, h⟩

theorem Holds.pop (h : c.Holds P) : c.pop.Holds P := by
  rw [Chain.pop, pop?]
  split
  next => exact h
  next s ss hOuter =>
    intro t hMem
    refine h t (List.mem_cons_of_mem _ ?_)
    rwa [hOuter]

end Chain
end Holding

/-- What is asked of the values that a program deals with, of those that it prints, and of its faults.
Operators keep what is asked of values. -/
structure Policy where
  value : Slot → Prop
  printed : Value → Prop
  fault : Fault → Prop
  nil : value (some .nil)
  binary : ∀ {op : BinaryOp} {a b : Slot} {v : Value}, value a → value b → op.apply a b = .ok v →
    value (some v)
  unary : ∀ {op : UnaryOp} {a : Slot} {v : Value}, value a → op.apply a = .ok v → value (some v)
  printed_of_value : ∀ {v : Value}, value (some v) → printed v

namespace Expr

/-- The literals are values as asked for, and so is each fault that a token may be blamed for. -/
def Obeys (p : Policy) : Expr → Prop
  | .literal value _ => p.value value
  | .name token => p.fault ⟨.undefined, token⟩
  | .assign target value => p.fault ⟨.undefined, target⟩ ∧ value.Obeys p
  | .binary left op right =>
    ((∀ e, p.fault ⟨.operands e, op⟩) ∧ (BinaryOp.ofKind? op.kind = none → p.fault ⟨.operator, op⟩)) ∧
      left.Obeys p ∧ right.Obeys p
  | .logical left op right =>
    (op.kind ≠ .orWord → op.kind ≠ .andWord → p.fault ⟨.operator, op⟩) ∧ left.Obeys p ∧ right.Obeys p
  | .unary op operand =>
    ((∀ e, p.fault ⟨.operands e, op⟩) ∧ (UnaryOp.ofKind? op.kind = none → p.fault ⟨.operator, op⟩)) ∧
      operand.Obeys p
  | .group inner => inner.Obeys p

end Expr

namespace Stmt

mutual

/-- The expressions are as asked for, and so is each fault that a keyword may be blamed for. -/
def Obeys (p : Policy) : Stmt → Prop
  | .expr e => e.Obeys p
  | .print keyword e => (∀ reason, p.fault ⟨.write reason, keyword⟩) ∧ e.Obeys p
  | .declare _ _ none => True
  | .declare _ _ (some e) => e.Obeys p
  | .block _ body => AllObey p body
  | .branch _ condition yes none => condition.Obeys p ∧ yes.Obeys p
  | .branch _ condition yes (some no) => condition.Obeys p ∧ yes.Obeys p ∧ no.Obeys p
  | .loop keyword condition body =>
    ((∀ n, p.fault ⟨.iterations n, keyword⟩) ∧ ∀ n, p.fault ⟨.time n, keyword⟩) ∧
      condition.Obeys p ∧ body.Obeys p

def AllObey (p : Policy) : List Stmt → Prop
  | [] => True
  | s :: rest => s.Obeys p ∧ AllObey p rest

end

/-- Statements are as asked for if each of them is. -/
theorem allObey_iff {p : Policy} {ss : List Stmt} : AllObey p ss ↔ ∀ s ∈ ss, s.Obeys p := by
  induction ss with
  | nil => simp [AllObey]
  | cons s ss ih => rw [AllObey, ih, List.forall_mem_cons]

end Stmt

/-- A failure is as asked for. The run only comes down where values may be absent. -/
def Stop.Obeys (p : Policy) : Stop → Prop
  | .fault f => p.fault f
  | .crashed => p.value none
  | _ => True

/-- The reports are of faults as asked for, and the run only comes down where values may be absent. -/
structure RunResult.Obeys (p : Policy) (r : RunResult) : Prop where
  reports : ∀ d ∈ r.diagnostics, ∃ f, p.fault f ∧ d = f.diagnostic
  crash : r.error = some .crashed → p.value none

/-- For a run that did not come down only its reports matter. -/
theorem RunResult.Obeys.of_ne {p : Policy} {r : RunResult}
    (hReports : ∀ d ∈ r.diagnostics, ∃ f, p.fault f ∧ d = f.diagnostic)
    (hError : r.error ≠ some .crashed) : r.Obeys p :=
  ⟨hReports, fun hCrash => absurd hCrash hError⟩

namespace Machine

def printed (m : Machine) : List Value := m.traces.filterMap Trace.printed?

@[simp] theorem printed_record (m : Machine) (e : Event) :
    (m.record e).printed = m.printed ++ (e.trace?.bind Trace.printed?).toList := by
  rw [printed, traces_record, List.filterMap_append, printed]
  cases h : e.trace? with
  | none => simp
  | some t => cases h' : t.printed? <;> simp [h']

@[simp] theorem printed_enter (line : Int) (m : Machine) : (m.enter line).printed = m.printed := by
  simp [printed, Trace.printed?]

@[simp] theorem printed_leave (line : Int) (m : Machine) : (m.leave line).printed = m.printed := by
  simp [printed, Trace.printed?]

/-- Every name is bound to a value as asked for, and such values have been printed. -/
structure Obeys (p : Policy) (m : Machine) : Prop where
  scopes : m.scopes.Holds p.value
  printed : ∀ v ∈ m.printed, p.printed v

variable {p : Policy} {m n : Machine}

/-- A machine is as asked for on account of its scopes and of what it printed. -/
theorem Obeys.of_eq (h : m.Obeys p) (hScopes : n.scopes = m.scopes) (hPrinted : n.printed = m.printed) :
    n.Obeys p where
  scopes := by rw [hScopes]; exact h.scopes
  printed := by rw [hPrinted]; exact h.printed

/-- An event that tells of nothing printed. -/
theorem Obeys.record (h : m.Obeys p) {e : Event} (hEvent : e.trace?.bind Trace.printed? = none) :
    (m.record e).Obeys p :=
  h.of_eq rfl (by rw [printed_record, hEvent, Option.toList_none, List.append_nil])

theorem Obeys.enter (h : m.Obeys p) (line : Int) : (m.enter line).Obeys p where
  scopes := h.scopes.push
  printed := by rw [printed_enter]; exact h.printed

theorem Obeys.leave (h : m.Obeys p) (line : Int) : (m.leave line).Obeys p where
  scopes := h.scopes.pop
  printed := by rw [printed_leave]; exact h.printed

theorem Obeys.of_poll (h : m.Obeys p) {run : Run} {answer : Option Interrupt}
    (hPoll : m.poll run = (answer, n)) : n.Obeys p := by
  cases hPoll
  exact h.of_eq rfl rfl

end Machine

namespace Evaluation

variable {p : Policy}

/-- From scopes as asked for the evaluation has a value and leaves scopes as asked for, or fails so. -/
abbrev Obeys (p : Policy) (x : Evaluation Slot) : Prop := Yields (Chain.Holds p.value) p.value p.fault x

/-- Operators keep what is asked of values. -/
theorem obeys_ofOperator {op : Token} {result : Except OperandError Value}
    (hValue : ∀ v, result = .ok v → p.value (some v)) (hFault : ∀ e, p.fault ⟨.operands e, op⟩) :
    Obeys p (ofOperator op result) := by
  cases result with
  | ok v => exact yields_pure (hValue v rfl)
  | error e => exact yields_throw (hFault e)

/-- A variable has a value as asked for, as all that are bound are. -/
theorem obeys_lookup {name : Token} (hFault : p.fault ⟨.undefined, name⟩) : Obeys p (lookup name) := by
  refine ⟨fun c hHolds => ?_, fun c v d hHolds hRan => ?_, fun c f d hHolds hRan => ?_⟩
  · rw [lookup_apply]
    cases c.find? name.lexeme with
    | some v => exact hHolds
    | none => exact hHolds
  · rw [lookup_apply] at hRan
    cases hFind : c.find? name.lexeme with
    | some w =>
        rw [hFind] at hRan
        cases hRan
        exact hHolds.find? hFind
    | none =>
        rw [hFind] at hRan
        cases hRan
  · rw [lookup_apply] at hRan
    cases hFind : c.find? name.lexeme with
    | some w =>
        rw [hFind] at hRan
        cases hRan
    | none =>
        rw [hFind] at hRan
        cases hRan
        exact hFault

/-- Assignment stores a value as asked for. -/
theorem yields_assign {name : Token} {v : Slot} (hValue : p.value v)
    (hFault : p.fault ⟨.undefined, name⟩) :
    Yields (Chain.Holds p.value) (fun _ => True) p.fault (assign name v) := by
  refine ⟨fun c hHolds => ?_, fun _ _ _ _ _ => trivial, fun c f d hHolds hRan => ?_⟩
  · rw [assign_apply]
    cases hAssign : c.assign? name.lexeme v with
    | some d => exact hHolds.assign? hValue hAssign
    | none => exact hHolds
  · rw [assign_apply] at hRan
    cases hAssign : c.assign? name.lexeme v with
    | some d =>
        rw [hAssign] at hRan
        cases hRan
    | none =>
        rw [hAssign] at hRan
        cases hRan
        exact hFault

end Evaluation

namespace Expr

variable {p : Policy} {e e' : Expr} {c c' : Chain}

/-- An expression as asked for has a value as asked for. -/
theorem obeys_eval (h : e.Obeys p) : Evaluation.Obeys p e.eval := by
  induction e with
  | literal value line => exact yields_pure h
  | name token => exact Evaluation.obeys_lookup h
  | assign target value ih =>
      exact (ih h.2).bind fun v hValue => (Evaluation.yields_assign hValue h.1).bind fun _ _ =>
        yields_pure hValue
  | binary left op right ihLeft ihRight =>
      refine (ihLeft h.2.1).bind fun a hLeft => (ihRight h.2.2).bind fun b hRight => ?_
      cases hOp : BinaryOp.ofKind? op.kind with
      | some f => exact Evaluation.obeys_ofOperator (fun v hResult => p.binary hLeft hRight hResult) h.1.1
      | none => exact yields_throw (h.1.2 hOp)
  | logical left op right ihLeft ihRight =>
      refine (ihLeft h.2.1).bind fun a hValue => ?_
      cases hDecides : op.kind.decides? a with
      | none =>
          refine yields_throw (h.1 ?_ ?_) <;> intro hKind <;> simp [Kind.decides?, hKind] at hDecides
      | some decided =>
          cases decided with
          | true => exact yields_pure hValue
          | false => exact ihRight h.2.2
  | unary op operand ih =>
      refine (ih h.2).bind fun a hValue => ?_
      cases hOp : UnaryOp.ofKind? op.kind with
      | some f => exact Evaluation.obeys_ofOperator (fun v hResult => p.unary hValue hResult) h.1.1
      | none => exact yields_throw (h.1.2 hOp)
  | group inner ih => exact ih h

/-- The parts of an expression are as asked for, in the scopes that they are evaluated in. -/
theorem Starts.obeys (h : Starts e c e' c') (hObeys : e.Obeys p) (hHolds : c.Holds p.value) :
    e'.Obeys p ∧ c'.Holds p.value := by
  cases h with
  | assigned => exact ⟨hObeys.2, hHolds⟩
  | left => exact ⟨hObeys.2.1, hHolds⟩
  | right hLeft => exact ⟨hObeys.2.2, (obeys_eval hObeys.2.1).of_ok hHolds hLeft⟩
  | deciding => exact ⟨hObeys.2.1, hHolds⟩
  | undecided hLeft => exact ⟨hObeys.2.2, (obeys_eval hObeys.2.1).of_ok hHolds hLeft⟩
  | operand => exact ⟨hObeys.2, hHolds⟩
  | inner => exact ⟨hObeys, hHolds⟩

/-- Whatever an expression comes to evaluate is as asked for. -/
theorem Visits.obeys (h : Visits e c e' c') (hObeys : e.Obeys p) (hHolds : c.Holds p.value) :
    e'.Obeys p ∧ c'.Holds p.value :=
  h.invariant (P := fun e c => e.Obeys p ∧ c.Holds p.value) ⟨hObeys, hHolds⟩
    fun _ _ _ _ ⟨hObeys, hHolds⟩ hStarts => hStarts.obeys hObeys hHolds

end Expr

namespace Action

variable {α : Type} {run : Run} {p : Policy}

/-- From a machine as asked for the action leaves one, and the value or the failure that it ends with
is as asked for. -/
abbrev Upholds (p : Policy) (P : α → Prop) (x : Action α) : Prop :=
  Yields (Machine.Obeys p) P (Stop.Obeys p) x

theorem upholds_trace {t : Trace} (h : t.printed? = none) : Upholds p (fun _ => True) (trace t) := by
  refine ⟨fun m hMachine => hMachine.record h, fun _ _ _ _ _ => trivial, fun m stop n _ hRan => ?_⟩
  cases hRan

theorem upholds_define (name : Text) {v : Slot} (hValue : p.value v) :
    Upholds p (fun _ => True)
      (modify fun m : Machine => { m with scopes := m.scopes.define name v } : Action Unit) := by
  refine ⟨fun m hMachine => ?_, fun _ _ _ _ _ => trivial, fun m stop n _ hRan => ?_⟩
  · exact ⟨hMachine.scopes.define name hValue, hMachine.printed⟩
  · cases hRan

/-- An expression is as asked for as an action as well. -/
theorem upholds_eval {e : Expr} (h : e.Obeys p) : Upholds p p.value (eval e) := by
  have hEval := Expr.obeys_eval h
  refine ⟨fun m hMachine => ?_, fun m v n hMachine hRan => ?_, fun m stop n hMachine hRan => ?_⟩
  · have hFinal := hEval.state m.scopes hMachine.scopes
    rw [eval, ofEvaluation]
    cases hRan : e.eval m.scopes with
    | ok v c =>
        rw [hRan] at hFinal
        exact ⟨hFinal, hMachine.printed⟩
    | error f c =>
        rw [hRan] at hFinal
        exact ⟨hFinal, hMachine.printed⟩
  · rw [eval, ofEvaluation] at hRan
    cases hValue : e.eval m.scopes with
    | ok w c =>
        rw [hValue] at hRan
        cases hRan
        exact hEval.value m.scopes v c hMachine.scopes hValue
    | error f c =>
        rw [hValue] at hRan
        cases hRan
  · obtain ⟨f, c, hFails, rfl⟩ := error_of_eval hRan
    exact hEval.error m.scopes f c hMachine.scopes hFails

/-- A run only comes down where a value may be absent. -/
theorem upholds_present {v : Slot} (hValue : p.value v) :
    Upholds p (fun w => p.value (some w)) (present v) := by
  cases v with
  | some w => exact yields_pure hValue
  | none => exact yields_throw hValue

theorem upholds_checkTime {keyword : Token} (h : ∀ n, p.fault ⟨.time n, keyword⟩) :
    Upholds p (fun _ => True) (checkTime run keyword) := by
  refine ⟨fun m hMachine => ?_, fun _ _ _ _ _ => trivial, fun m stop n hMachine hRan => ?_⟩
  · have hPolled : (m.poll run).2.Obeys p := hMachine.of_eq rfl rfl
    rw [checkTime]
    generalize m.poll run = polled at hPolled
    obtain ⟨answer, n⟩ := polled
    cases answer with
    | none => exact hPolled
    | some i =>
        simp only
        split <;> exact hPolled
  · rcases stop_of_checkTime hRan with ⟨i, rfl⟩ | ⟨_, rfl⟩
    · trivial
    · exact h _

theorem upholds_countIteration {keyword : Token} (h : ∀ n, p.fault ⟨.iterations n, keyword⟩) :
    Upholds p (fun _ => True) (countIteration run keyword) := by
  refine ⟨fun m hMachine => ?_, fun _ _ _ _ _ => trivial, fun m stop n hMachine hRan => ?_⟩
  · rw [countIteration]
    split
    · exact hMachine
    · exact hMachine.of_eq rfl rfl
  · rw [countIteration] at hRan
    split at hRan
    · cases hRan
      exact h _
    · cases hRan

theorem upholds_write {keyword : Token} {text : Text} (h : ∀ reason, p.fault ⟨.write reason, keyword⟩) :
    Upholds p (fun _ => True) (write run keyword text) := by
  refine ⟨fun m hMachine => ?_, fun _ _ _ _ _ => trivial, fun m stop n hMachine hRan => ?_⟩
  · rw [write]
    cases run.host.refusal m.progress.attempts with
    | some reason => exact hMachine.of_eq rfl rfl
    | none => exact (hMachine.record (e := .output (text ++ [Text.newline])) rfl).of_eq rfl rfl
  · rw [write] at hRan
    cases hRefusal : run.host.refusal m.progress.attempts with
    | some reason =>
        rw [hRefusal] at hRan
        cases hRan
        exact h reason
    | none =>
        rw [hRefusal] at hRan
        cases hRan

/-- The event of a print statement tells the value that was printed. -/
theorem upholds_tracePrint (line : Int) {v : Value} (hValue : p.value (some v)) :
    Upholds p (fun _ => True) (trace (.print line v)) := by
  refine ⟨fun m hMachine => ⟨hMachine.scopes, ?_⟩, fun _ _ _ _ _ => trivial, fun m stop n _ hRan => ?_⟩
  · change ∀ w ∈ (m.record (.trace (.print line v))).printed, p.printed w
    rw [Machine.printed_record]
    exact List.forall_mem_append.mpr
      ⟨hMachine.printed, List.forall_mem_singleton.mpr (p.printed_of_value hValue)⟩
  · cases hRan

/-- The test of a loop upholds a policy if its condition and its faults obey it. -/
theorem upholds_test {keyword : Token} {condition : Expr} (hCondition : condition.Obeys p)
    (hCount : ∀ n, p.fault ⟨.iterations n, keyword⟩) (hTime : ∀ n, p.fault ⟨.time n, keyword⟩) :
    Upholds p (fun _ => True) (test run keyword condition) := by
  refine (upholds_checkTime hTime).bind fun _ _ => (upholds_eval hCondition).bind fun v _ => ?_
  split
  · exact (upholds_countIteration hCount).bind fun _ _ => yields_pure trivial
  · exact yields_pure trivial

/-- A loop upholds what its tests and iterations uphold. -/
theorem upholds_repeatWhile {test : Action Bool} {body : Action Unit}
    (hTest : Upholds p (fun _ => True) test) (hBody : Upholds p (fun _ => True) body) (horizon : Nat) :
    Upholds p (fun _ => True) (repeatWhile test body horizon) := by
  induction horizon with
  | zero => exact yields_throw trivial
  | succ horizon ih =>
      rw [repeatWhile_succ]
      refine hTest.bind fun holds _ => ?_
      split
      · exact hBody.bind fun _ _ => ih
      · exact yields_pure trivial

/-- A scope adds no values and drops those of its body. -/
theorem upholds_inScope {body : Action Unit} (h : Upholds p (fun _ => True) body) (line : Int) :
    Upholds p (fun _ => True) (inScope line body) := by
  refine ⟨fun m hMachine => ?_, fun _ _ _ _ _ => trivial, fun m stop n hMachine hRan => ?_⟩
  · have hBody := h.state (m.enter line) (hMachine.enter line)
    rw [inScope]
    cases hRan : body (m.enter line) with
    | ok a n =>
        rw [hRan] at hBody
        exact hBody.leave line
    | error stop n =>
        rw [hRan] at hBody
        exact hBody.leave line
  · rw [inScope] at hRan
    cases hBody : body (m.enter line) with
    | ok a k =>
        rw [hBody] at hRan
        cases hRan
    | error stop' k =>
        rw [hBody] at hRan
        cases hRan
        exact h.error _ _ _ (hMachine.enter line) hBody

theorem upholds_traced {body : Action Unit} (h : Upholds p (fun _ => True) body) (line : Int)
    (kind : String) : Upholds p (fun _ => True) (traced line kind body) :=
  (upholds_trace rfl).bind fun _ _ => h.bind fun _ _ => upholds_trace rfl

end Action

namespace Stmt

open Lox.Action

variable {run : Run} {p : Policy}

theorem upholds_test_of_loop {keyword : Token} {condition : Expr} {body : Stmt}
    (h : (Stmt.loop keyword condition body).Obeys p) :
    Upholds p (fun _ => True) (test run keyword condition) :=
  upholds_test h.2.1 h.1.1 h.1.2

mutual

/-- A statement as asked for keeps a machine as it is asked for, and only fails so. -/
theorem upholds_exec : (s : Stmt) → s.Obeys p → Upholds p (fun _ => True) (s.exec run)
  | .expr e, h => by
      rw [exec]
      exact upholds_traced ((upholds_eval h).bind fun _ _ => yields_pure trivial) _ _
  | .print keyword e, h => by
      rw [exec]
      refine upholds_traced ?_ _ _
      exact (upholds_eval h.2).bind fun v hValue => (upholds_present hValue).bind fun w hPresent =>
        (upholds_write h.1).bind fun _ _ => upholds_tracePrint keyword.line hPresent
  | .declare name token none, _ => by
      rw [exec]
      exact upholds_traced (upholds_define name p.nil) _ _
  | .declare name token (some e), h => by
      rw [exec]
      refine upholds_traced ?_ _ _
      exact (upholds_eval h).bind fun v hValue => upholds_define name hValue
  | .block line body, h => by
      rw [exec]
      exact upholds_traced (upholds_inScope (upholds_execAll body h) line) _ _
  | .branch keyword condition yes none, h => by
      rw [exec]
      refine upholds_traced ((upholds_eval h.1).bind fun v _ => ?_) _ _
      split
      · exact upholds_exec yes h.2
      · exact yields_pure trivial
  | .branch keyword condition yes (some no), h => by
      rw [exec]
      refine upholds_traced ((upholds_eval h.1).bind fun v _ => ?_) _ _
      split
      · exact upholds_exec yes h.2.1
      · exact upholds_exec no h.2.2
  | .loop keyword condition body, h => by
      rw [exec]
      refine upholds_traced ?_ _ _
      exact upholds_repeatWhile (upholds_test_of_loop h) (upholds_exec body h.2.2) _

/-- Statements as asked for uphold a policy in a row. -/
theorem upholds_execAll : (ss : List Stmt) → AllObey p ss → Upholds p (fun _ => True) (execAll run ss)
  | [], _ => yields_pure trivial
  | s :: ss, h => by
      rw [execAll]
      exact (upholds_exec s h.1).bind fun _ _ => upholds_execAll ss h.2

end

/-- Running the statement comes to evaluate an expression, or a part of one, in some scopes. -/
def Computes (run : Run) (s : Stmt) (m : Machine) (e : Expr) (c : Chain) : Prop :=
  ∃ t k e' l, Visits run s m t k ∧ Evaluates run t (k.started t) e' l ∧ e'.Visits l.scopes e c

variable {s t : Stmt} {ss : List Stmt} {e : Expr} {m k : Machine}

/-- A statement that others come to is as asked for, and so is the machine that it finds. -/
theorem Reaches.obeys (h : Reaches run ss m t k) (hObeys : AllObey p ss) (hMachine : m.Obeys p) :
    t.Obeys p ∧ k.Obeys p := by
  induction h with
  | head => exact ⟨hObeys.1, hMachine⟩
  | tail hRan _ ih => exact ih hObeys.2 ((upholds_exec _ hObeys.1).of_ok hMachine hRan)

/-- The machines in which a loop tests its condition are as asked for. -/
theorem obeys_of_tries {test : Action Bool} {body : Action Unit} {horizon : Nat}
    (h : Tries test body horizon m k) (hTest : Upholds p (fun _ => True) test)
    (hBody : Upholds p (fun _ => True) body) (hMachine : m.Obeys p) : k.Obeys p := by
  induction h with
  | first => exact hMachine
  | later hTested hRan _ ih => exact ih (hBody.of_ok (hTest.of_ok hMachine hTested) hRan)

/-- The parts of a statement are as asked for, and so are the machines that they find. -/
theorem Starts.obeys (h : Starts run s m t k) (hObeys : s.Obeys p) (hMachine : m.Obeys p) :
    t.Obeys p ∧ k.Obeys p := by
  cases h with
  | block hReaches => exact hReaches.obeys hObeys (hMachine.enter _)
  | @yes _ _ _ no _ _ _ hCondition _ =>
      cases no with
      | none => exact ⟨hObeys.2, (upholds_eval hObeys.1).of_ok hMachine hCondition⟩
      | some no => exact ⟨hObeys.2.1, (upholds_eval hObeys.1).of_ok hMachine hCondition⟩
  | no hCondition _ => exact ⟨hObeys.2.2, (upholds_eval hObeys.1).of_ok hMachine hCondition⟩
  | body hTries hTest =>
      have hTried :=
        obeys_of_tries hTries (upholds_test_of_loop hObeys) (upholds_exec _ hObeys.2.2) hMachine
      exact ⟨hObeys.2.2, (upholds_test_of_loop hObeys).of_ok hTried hTest⟩

theorem Evaluates.obeys (h : Evaluates run s m e k) (hObeys : s.Obeys p) (hMachine : m.Obeys p) :
    e.Obeys p ∧ k.Obeys p := by
  cases h with
  | expr => exact ⟨hObeys, hMachine⟩
  | print => exact ⟨hObeys.2, hMachine⟩
  | declare => exact ⟨hObeys, hMachine⟩
  | branch _ _ _ no =>
      cases no with
      | none => exact ⟨hObeys.1, hMachine⟩
      | some no => exact ⟨hObeys.1, hMachine⟩
  | loop hTries hPoll =>
      have hTried :=
        obeys_of_tries hTries (upholds_test_of_loop hObeys) (upholds_exec _ hObeys.2.2) hMachine
      exact ⟨hObeys.2.1, (upholds_checkTime hObeys.1.2).of_ok hTried hPoll⟩

/-- Whatever a statement comes to run is as asked for. -/
theorem Visits.obeys (h : Visits run s m t k) (hObeys : s.Obeys p) (hMachine : m.Obeys p) :
    t.Obeys p ∧ k.Obeys p :=
  h.invariant (P := fun t k => t.Obeys p ∧ k.Obeys p) ⟨hObeys, hMachine⟩
    fun _ _ _ _ ⟨hObeys, hMachine⟩ hStarts => hStarts.obeys hObeys (hMachine.record rfl)

/-- Whatever a statement comes to evaluate is as asked for. -/
theorem Computes.obeys {c : Chain} (h : Computes run s m e c) (hObeys : s.Obeys p)
    (hMachine : m.Obeys p) : e.Obeys p ∧ c.Holds p.value := by
  obtain ⟨t, k, e', l, hVisits, hEvaluates, hInside⟩ := h
  obtain ⟨hPart, hReached⟩ := hVisits.obeys hObeys hMachine
  obtain ⟨hExpr, hReached'⟩ := hEvaluates.obeys hPart (hReached.record rfl)
  exact hInside.obeys hExpr hReached'.scopes

end Stmt

namespace Machine

variable {run : Run} {p : Policy} {m : Machine}

theorem Obeys.reported (h : m.Obeys p) (f : Fault) : (m.reported f).Obeys p :=
  ((h.record rfl).record rfl).record rfl

/-- A top-level statement leaves a machine as asked for and reports faults as asked for. -/
theorem Attempted.obeys {s : Stmt} {ended : RunResult × Machine} (h : Attempted run s m ended)
    (hObeys : s.Obeys p) (hMachine : m.Obeys p) :
    ended.2.Obeys p ∧ ended.1.Obeys p := by
  have hExec : Lox.Action.Upholds p (fun _ => True) (s.exec run) := Stmt.upholds_exec s hObeys
  have hLeft {n k : Machine} {stop : Stop} (hPoll : m.poll run = (none, n))
      (hRan : s.exec run n = .error stop k) : k.Obeys p :=
    hExec.of_error (hMachine.of_poll hPoll) hRan
  have hFault {f : Fault} {n k : Machine} (hPoll : m.poll run = (none, n))
      (hRan : s.exec run n = .error (.fault f) k) :
      ∀ d ∈ [f.diagnostic], ∃ f', p.fault f' ∧ d = f'.diagnostic :=
    List.forall_mem_singleton.mpr ⟨f, hExec.error n (.fault f) k (hMachine.of_poll hPoll) hRan, rfl⟩
  cases h with
  | interruptedBefore hPoll => exact ⟨hMachine.of_poll hPoll, .of_ne (List.forall_mem_nil _) (by simp)⟩
  | completed hPoll hRan =>
      exact ⟨hExec.of_ok (hMachine.of_poll hPoll) hRan, .of_ne (List.forall_mem_nil _) (by simp)⟩
  | failed hPoll hRan =>
      exact ⟨(hLeft hPoll hRan).reported _, .of_ne (hFault hPoll hRan) (by simp)⟩
  | exhausted hPoll hRan =>
      exact ⟨((hLeft hPoll hRan).record rfl).record rfl, .of_ne (hFault hPoll hRan) (by simp)⟩
  | interrupted hPoll hRan => exact ⟨hLeft hPoll hRan, .of_ne (List.forall_mem_nil _) (by simp)⟩
  | crashed hPoll hRan =>
      exact ⟨hLeft hPoll hRan, List.forall_mem_nil _,
        fun _ => hExec.error _ .crashed _ (hMachine.of_poll hPoll) hRan⟩
  | unfinished hPoll hRan => exact ⟨hLeft hPoll hRan, .of_ne (List.forall_mem_nil _) (by simp)⟩

/-- A run of statements as asked for keeps a machine as it is asked for, and its result is so too. -/
theorem runAll_obeys (run : Run) {ss : List Stmt} (hObeys : ∀ s ∈ ss, s.Obeys p) (hMachine : m.Obeys p) :
    (runAll run ss m).2.Obeys p ∧ (runAll run ss m).1.Obeys p := by
  induction ss generalizing m with
  | nil => exact ⟨hMachine, .of_ne (List.forall_mem_nil _) (by simp [runAll, runFrom])⟩
  | cons s ss ih =>
      obtain ⟨hFirst, hRest⟩ := List.forall_mem_cons.mp hObeys
      obtain ⟨hReached, hReports⟩ := (attempted run s m).obeys hFirst hMachine
      rw [runAll_cons]
      cases hError : (runAll run [s] m).1.error with
      | some error =>
          rw [followedBy_of_some hError]
          exact ⟨hReached, hReports⟩
      | none =>
          obtain ⟨hEnd, hLater⟩ := ih hRest hReached
          rw [followedBy_of_none hError]
          exact ⟨hEnd, List.forall_mem_append.mpr ⟨hReports.reports, hLater.reports⟩, hLater.crash⟩

theorem Obeys.begun (h : m.Obeys p) (runId : Text) (program : Program) :
    (m.begun runId program).Obeys p :=
  ((h.of_eq (n := { m with iterations := 0 }) rfl rfl).record rfl).record rfl

/-- A program as asked for stores and prints such values only, and fails in such ways only. -/
theorem execute_obeys {host : Host} {budget : Budget} {runId : Text} {horizon : Nat} {program : Program}
    (hObeys : ∀ s ∈ program.statements, s.Obeys p) (hMachine : m.Obeys p) :
    let ended := execute host budget runId horizon program m
    ended.2.Obeys p ∧ ended.1.Obeys p := by
  intro ended
  obtain ⟨hEnd, hReports⟩ :=
    runAll_obeys ⟨host, budget, runId, horizon, m.progress⟩ hObeys (hMachine.begun runId program)
  exact ⟨(hEnd.record rfl).record rfl, hReports⟩

/-- Each top-level statement that a run comes to is run from a machine as asked for. -/
theorem obeys_of_reached {before later : List Stmt} {s : Stmt} {n : Machine}
    (hObeys : ∀ t ∈ before ++ s :: later, t.Obeys p) (hMachine : m.Obeys p)
    (hPoll : (runAll run before m).2.poll run = (none, n)) : s.Obeys p ∧ n.Obeys p := by
  obtain ⟨hBefore, hRest⟩ := List.forall_mem_append.mp hObeys
  exact ⟨hRest s List.mem_cons_self, (runAll_obeys run hBefore hMachine).1.of_poll hPoll⟩

end Machine
end Lox
