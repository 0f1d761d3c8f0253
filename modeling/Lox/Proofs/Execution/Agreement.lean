import Mathlib
import Lox.Execution

/-! Computations that go the same way. Two computations agree if from related states they give the
same value or fail in related ways, and end in related states again. Agreement is put together as
computations are, so that two runs are compared statement by statement. -/
namespace Lox

section Agreement

variable {ε σ α β : Type} {R : σ → σ → Prop} {E : ε → ε → Prop}

/-- The same value or related failures, in related states. -/
inductive SameResult (R : σ → σ → Prop) (E : ε → ε → Prop) :
    EStateM.Result ε σ α → EStateM.Result ε σ α → Prop
  | ok {a s t} (hState : R s t) : SameResult R E (.ok a s) (.ok a t)
  | error {e f s t} (hError : E e f) (hState : R s t) : SameResult R E (.error e s) (.error f t)

/-- From related states both computations end alike. -/
def Agree (R : σ → σ → Prop) (E : ε → ε → Prop) (x y : EStateM ε σ α) : Prop :=
  ∀ s t, R s t → SameResult R E (x s) (y t)

theorem agree_pure (a : α) : Agree R E (pure a) (pure a) := fun _ _ h => .ok h

theorem agree_throw {e f : ε} (h : E e f) : Agree R E (throw e : EStateM ε σ α) (throw f) :=
  fun _ _ hState => .error h hState

/-- Agreement goes through a sequence: what follows has to agree for every value. -/
theorem Agree.bind {x y : EStateM ε σ α} {f g : α → EStateM ε σ β} (h : Agree R E x y)
    (hNext : ∀ a, Agree R E (f a) (g a)) : Agree R E (x >>= f) (y >>= g) := by
  intro s t hState
  have hResult := h s t hState
  change SameResult R E (EStateM.bind x f s) (EStateM.bind y g t)
  rw [EStateM.bind, EStateM.bind]
  generalize x s = r, y t = r' at hResult
  cases hResult with
  | ok hState' => exact hNext _ _ _ hState'
  | error hError hState' => exact .error hError hState'

end Agreement

namespace Evaluation

variable {Q : Chain → Chain → Prop} {E : Fault → Fault → Prop}

theorem agree_fail {α : Type} {cause : Cause} {t t' : Token} (h : E ⟨cause, t⟩ ⟨cause, t'⟩) :
    Agree Q E (fail cause t : Evaluation α) (fail cause t') := agree_throw h

/-- Operators fail alike on the same operands, each blaming its own word. -/
theorem agree_ofOperator {op op' : Token} (h : ∀ e, E ⟨.operands e, op⟩ ⟨.operands e, op'⟩)
    (result : Except OperandError Value) :
    Agree Q E (ofOperator op result) (ofOperator op' result) := by
  cases result with
  | ok v => exact agree_pure _
  | error e => exact agree_fail (h e)

/-- Reading a variable finds the nearest binding of its name, or blames the word. -/
theorem lookup_apply (name : Token) (c : Chain) : lookup name c =
    match c.find? name.lexeme with
    | some v => .ok v c
    | none => .error ⟨.undefined, name⟩ c := by
  simp only [lookup, bind, EStateM.bind, get, getThe, MonadStateOf.get, EStateM.get]
  cases c.find? name.lexeme <;> rfl

/-- Assignment changes the nearest binding of a name, or blames the word. -/
theorem assign_apply (name : Token) (value : Slot) (c : Chain) : assign name value c =
    match c.assign? name.lexeme value with
    | some scopes => .ok () scopes
    | none => .error ⟨.undefined, name⟩ c := by
  simp only [assign, bind, EStateM.bind, get, getThe, MonadStateOf.get, EStateM.get]
  cases c.assign? name.lexeme value <;> rfl

/-- Reading agrees on chains that have the same binding for the name. -/
theorem agree_lookup {name name' : Token} (hLexeme : name'.lexeme = name.lexeme)
    (hFind : ∀ c d, Q c d → c.find? name.lexeme = d.find? name.lexeme)
    (h : E ⟨.undefined, name⟩ ⟨.undefined, name'⟩) :
    Agree Q E (lookup name) (lookup name') := by
  intro c d hScopes
  have hSame := hFind c d hScopes
  rw [lookup_apply, lookup_apply, hLexeme, ← hSame]
  cases c.find? name.lexeme with
  | some v => exact .ok hScopes
  | none => exact .error h hScopes

/-- Assignments agree if they find related scopes to write to. -/
theorem agree_assign {name name' : Token} {value : Slot} (hLexeme : name'.lexeme = name.lexeme)
    (hAssign : ∀ c d, Q c d →
      Option.Rel Q (c.assign? name.lexeme value) (d.assign? name.lexeme value))
    (h : E ⟨.undefined, name⟩ ⟨.undefined, name'⟩) :
    Agree Q E (assign name value) (assign name' value) := by
  intro c d hScopes
  have hSame := hAssign c d hScopes
  rw [assign_apply, assign_apply, hLexeme]
  generalize c.assign? name.lexeme value = r, d.assign? name.lexeme value = r' at hSame
  cases hSame with
  | some hRelated => exact .ok hRelated
  | none => exact .error h hScopes

end Evaluation

def Event.output? : Event → Option Text
  | .output text => some text
  | _ => none

namespace Machine

/-- What the output sink has taken so far. -/
def outputs (m : Machine) : List Text := m.events.toList.filterMap Event.output?

/-- Machines that have come as far and written the same, with scopes in some relation. -/
structure Alike (Q : Chain → Chain → Prop) (m n : Machine) : Prop where
  scopes : Q m.scopes n.scopes
  iterations : m.iterations = n.iterations
  progress : m.progress = n.progress
  outputs : m.outputs = n.outputs

variable {Q Q' : Chain → Chain → Prop} {m n : Machine}

/-- Only an output adds to what has been written. -/
theorem outputs_record {e : Event} (h : e.output? = none) : (m.record e).outputs = m.outputs := by
  simp [outputs, record, h]

@[simp] theorem outputs_enter (line : Int) : (m.enter line).outputs = m.outputs := by
  simp [outputs, enter, record, Event.output?]

@[simp] theorem outputs_leave (line : Int) : (m.leave line).outputs = m.outputs := by
  simp [outputs, leave, record, Event.output?]

/-- Events that write nothing may differ between machines that are alike. -/
theorem Alike.record (h : Alike Q m n) (e e' : Event) (he : e.output? = none)
    (he' : e'.output? = none) : Alike Q (m.record e) (n.record e') :=
  ⟨h.scopes, h.iterations, h.progress, by rw [outputs_record he, outputs_record he', h.outputs]⟩

theorem Alike.withScopes (h : Alike Q m n) {c d : Chain} (hScopes : Q' c d) :
    Alike Q' { m with scopes := c } { n with scopes := d } :=
  ⟨hScopes, h.iterations, h.progress, h.outputs⟩

theorem Alike.enter (h : Alike Q m n) (hScopes : Q' m.scopes.push n.scopes.push)
    (line line' : Int) : Alike Q' (m.enter line) (n.enter line') :=
  ⟨hScopes, h.iterations, h.progress, by rw [outputs_enter, outputs_enter, h.outputs]⟩

/-- Machines stay alike when both leave a scope, if the scopes below are related. -/
theorem Alike.leave (h : Alike Q m n) (hScopes : Q' m.scopes.pop n.scopes.pop)
    (line line' : Int) : Alike Q' (m.leave line) (n.leave line') :=
  ⟨hScopes, h.iterations, h.progress, by rw [outputs_leave, outputs_leave, h.outputs]⟩

/-- An event that writes nothing may be missing on one side. -/
theorem Alike.recordRight (h : Alike Q m n) (e : Event) (he : e.output? = none) :
    Alike Q m (n.record e) :=
  ⟨h.scopes, h.iterations, h.progress, by rw [outputs_record he, h.outputs]⟩

/-- One side enters a block, and the other changes its scopes to match. -/
theorem Alike.enterRight (h : Alike Q m n) {c : Chain} (hScopes : Q' c n.scopes.push)
    (line : Int) : Alike Q' { m with scopes := c } (n.enter line) :=
  ⟨hScopes, h.iterations, h.progress, h.outputs.trans (outputs_enter line).symm⟩

/-- One side may leave a scope that the other side drops without a word. -/
theorem Alike.leaveRight (h : Alike Q m n) {c : Chain} (hScopes : Q' c n.scopes.pop)
    (line : Int) : Alike Q' { m with scopes := c } (n.leave line) :=
  ⟨hScopes, h.iterations, h.progress, h.outputs.trans (outputs_leave line).symm⟩

/-- The surroundings give machines that have come as far the same answer. -/
theorem Alike.poll (h : Alike Q m n) (run : Run) :
    (m.poll run).1 = (n.poll run).1 ∧ Alike Q (m.poll run).2 (n.poll run).2 := by
  simp only [Machine.poll, h.progress, true_and]
  exact ⟨h.scopes, h.iterations, rfl, h.outputs⟩

end Machine

inductive Stop.Alike (E : Fault → Fault → Prop) : Stop → Stop → Prop
  | fault {f f'} (hFault : E f f') : Stop.Alike E (.fault f) (.fault f')
  | interrupted (i) : Stop.Alike E (.interrupted i) (.interrupted i)
  | crashed : Stop.Alike E .crashed .crashed
  | unfinished : Stop.Alike E .unfinished .unfinished

namespace Action

/-- Agreement of actions on machines whose scopes are related by `Q`. -/
abbrev Agrees {α : Type} (Q : Chain → Chain → Prop) (E : Fault → Fault → Prop)
    (a b : Action α) : Prop :=
  Agree (Machine.Alike Q) (Stop.Alike E) a b

variable {Q Q' : Chain → Chain → Prop} {E : Fault → Fault → Prop} {run : Run}

theorem agrees_trace (t t' : Trace) : Agrees Q E (trace t) (trace t') :=
  fun _ _ h => .ok (h.record _ _ rfl rfl)

/-- Expressions that agree on chains agree as actions on machines. -/
theorem agrees_ofEvaluation {α : Type} {x y : Evaluation α} (h : Agree Q E x y) :
    Agrees Q E (ofEvaluation x) (ofEvaluation y) := by
  intro m n hAlike
  have hResult := h _ _ hAlike.scopes
  rw [ofEvaluation, ofEvaluation]
  generalize x m.scopes = r, y n.scopes = r' at hResult
  cases hResult with
  | ok hScopes => exact .ok (hAlike.withScopes hScopes)
  | error hFault hScopes => exact .error (.fault hFault) (hAlike.withScopes hScopes)

theorem agrees_present (v : Slot) : Agrees Q E (present v) (present v) := by
  cases v with
  | none => exact agree_throw .crashed
  | some v => exact agree_pure v

/-- Declarations agree if the scopes they leave are related. -/
theorem agrees_define {name : Text} {value : Slot}
    (h : ∀ c d, Q c d → Q (c.define name value) (d.define name value)) :
    Agrees Q E (modify fun m => { m with scopes := m.scopes.define name value })
      (modify fun m => { m with scopes := m.scopes.define name value }) :=
  fun _ _ hAlike => .ok (hAlike.withScopes (h _ _ hAlike.scopes))

def SameBlame (E : Fault → Fault → Prop) (t t' : Token) : Prop :=
  ∀ cause, Fault.code ⟨cause, t⟩ = .budget → E ⟨cause, t⟩ ⟨cause, t'⟩

/-- Machines that have come as far are interrupted alike. -/
theorem agrees_checkTime {t t' : Token} (h : SameBlame E t t') :
    Agrees Q E (checkTime run t) (checkTime run t') := by
  intro m n hAlike
  obtain ⟨hAnswer, hNext⟩ := hAlike.poll run
  rw [checkTime, checkTime]
  generalize m.poll run = r, n.poll run = r' at hAnswer hNext
  obtain ⟨answer, m'⟩ := r
  obtain ⟨answer', n'⟩ := r'
  cases hAnswer
  cases answer with
  | none => exact .ok hNext
  | some i =>
      simp only
      split
      · exact .error (.fault (h _ rfl)) hNext
      · exact .error (.interrupted i) hNext

/-- Machines that have come as far have the same iterations left. -/
theorem agrees_countIteration {t t' : Token} (h : SameBlame E t t') :
    Agrees Q E (countIteration run t) (countIteration run t') := by
  intro m n hAlike
  rw [countIteration, countIteration, ← hAlike.iterations]
  split
  · exact .error (.fault (h _ rfl)) hAlike
  · exact .ok ⟨hAlike.scopes, rfl, hAlike.progress, hAlike.outputs⟩

/-- Machines that have come as far are refused the same writes. -/
theorem agrees_write {t t' : Token} (h : ∀ reason, E ⟨.write reason, t⟩ ⟨.write reason, t'⟩)
    (text : Text) : Agrees Q E (write run t text) (write run t' text) := by
  intro m n hAlike
  rw [write, write, ← hAlike.progress]
  cases run.host.refusal m.progress.attempts with
  | some reason =>
      exact .error (.fault (h reason)) ⟨hAlike.scopes, hAlike.iterations, rfl, hAlike.outputs⟩
  | none =>
      refine .ok ⟨hAlike.scopes, hAlike.iterations, rfl, ?_⟩
      have hOutputs := hAlike.outputs
      simp only [Machine.outputs] at hOutputs ⊢
      simp [hOutputs, Event.output?]

/-- The test of a loop agrees if the conditions do. -/
theorem agrees_test {t t' : Token} {condition condition' : Expr} (h : SameBlame E t t')
    (hCondition : Agree Q E condition.eval condition'.eval) :
    Agrees Q E (test run t condition) (test run t' condition') := by
  refine (agrees_checkTime h).bind fun _ => (agrees_ofEvaluation hCondition).bind fun v => ?_
  split
  · exact (agrees_countIteration h).bind fun _ => agree_pure true
  · exact agree_pure false

/-- One iteration of a loop, and then the rest of it. -/
theorem repeatWhile_succ (test : Action Bool) (body : Action Unit) (horizon : Nat) :
    repeatWhile test body (horizon + 1) = (do
      let holds ← test
      if holds then do
        body
        repeatWhile test body horizon
      else pure ()) := by
  funext m
  rw [repeatWhile]
  simp only [bind, EStateM.bind]
  cases test m with
  | error stop m => rfl
  | ok holds m =>
      cases holds with
      | false => rfl
      | true =>
          simp only [↓reduceIte, EStateM.bind]
          cases body m <;> rfl

/-- Loops agree if their tests and bodies do, iteration by iteration. -/
theorem agree_repeatWhile {R : Machine → Machine → Prop} {F : Stop → Stop → Prop}
    (hUnfinished : F .unfinished .unfinished) {test test' : Action Bool} {body body' : Action Unit}
    (hTest : Agree R F test test') (hBody : Agree R F body body') (horizon : Nat) :
    Agree R F (repeatWhile test body horizon) (repeatWhile test' body' horizon) := by
  induction horizon with
  | zero => exact agree_throw hUnfinished
  | succ horizon ih =>
      rw [repeatWhile_succ, repeatWhile_succ]
      refine hTest.bind fun holds => ?_
      split
      · exact hBody.bind fun _ => ih
      · exact agree_pure ()

theorem Agrees.repeatWhile {test test' : Action Bool} {body body' : Action Unit}
    (hTest : Agrees Q E test test') (hBody : Agrees Q E body body') (horizon : Nat) :
    Agrees Q E (repeatWhile test body horizon) (repeatWhile test' body' horizon) :=
  agree_repeatWhile .unfinished hTest hBody horizon

/-- Actions in scopes of their own agree if they do so inside, whatever relates the scopes there. -/
theorem Agrees.inScope {body body' : Action Unit} (hPush : ∀ c d, Q c d → Q' c.push d.push)
    (hBody : Agrees Q' E body body') (hPop : ∀ c d, Q' c d → Q c.pop d.pop) (line line' : Int) :
    Agrees Q E (inScope line body) (inScope line' body') := by
  intro m n hAlike
  have hRan := hBody _ _ (hAlike.enter (hPush _ _ hAlike.scopes) line line')
  rw [Action.inScope, Action.inScope]
  generalize body (m.enter line) = r, body' (n.enter line') = r' at hRan
  cases hRan with
  | ok hAlike' => exact .ok (hAlike'.leave (hPop _ _ hAlike'.scopes) line line')
  | error hStop hAlike' => exact .error hStop (hAlike'.leave (hPop _ _ hAlike'.scopes) line line')

/-- A statement with its place in the trace. -/
theorem traced_apply (line : Int) (kind : String) (body : Action Unit) (m : Machine) :
    traced line kind body m =
      match body (m.record (.trace (.stmtStart line kind))) with
      | .ok () m => .ok () (m.record (.trace (.stmtEnd line)))
      | .error stop m => .error stop m := by
  simp only [traced, trace, bind, EStateM.bind, modify, modifyGet, MonadStateOf.modifyGet,
    EStateM.modifyGet]
  cases body (m.record (.trace (.stmtStart line kind))) <;> rfl

theorem Agrees.traced {body body' : Action Unit} (h : Agrees Q E body body') (line line' : Int)
    (kind kind' : String) : Agrees Q E (traced line kind body) (traced line' kind' body') :=
  (agrees_trace _ _).bind fun _ => h.bind fun _ => agrees_trace _ _

end Action
end Lox
