import Lox.Proofs.Execution.Lagging

/-! The single steps of a machine. Whatever statement is run, it takes the machine through steps of a
few kinds and stops for one of a few reasons, so that what every step keeps is kept by every
statement. -/
namespace Lox

/-- The event tells of the run itself: it is neither output nor a report. -/
def Event.IsNote : Event → Prop
  | .trace _ => True
  | .log _ => True
  | .output _ => False
  | .report _ => False

namespace Machine

/-- One step of a machine in a run. -/
inductive Step (run : Run) : Machine → Machine → Prop
  | note (m : Machine) {e : Event} (hNote : e.IsNote) : Step run m (m.record e)
  | scopes (m : Machine) (c : Chain) : Step run m { m with scopes := c }
  | poll (m : Machine) : Step run m (m.poll run).2
  | count (m : Machine)
      (hLeft : ¬ (0 < run.budget.maxIterations ∧ run.budget.maxIterations.toInt ≤ m.iterations)) :
      Step run m { m with iterations := m.iterations + 1 }
  | write (m : Machine) (text : Text) (hTaken : run.host.refusal m.progress.attempts = none) :
      Step run m { m with
        progress := { m.progress with writes := m.progress.writes + 1 }
        events := m.events.push (.output text) }
  | refuse (m : Machine) {reason : Text}
      (hRefused : run.host.refusal m.progress.attempts = some reason) :
      Step run m { m with progress := { m.progress with refused := m.progress.refused + 1 } }

abbrev Steps (run : Run) : Machine → Machine → Prop := Relation.ReflTransGen (Step run)

/-- What every step keeps is kept by any number of them. -/
theorem Steps.invariant {α : Type} {run : Run} {view : Machine → α}
    (h : ∀ m n, Step run m n → view n = view m) {m n : Machine} (hSteps : Steps run m n) :
    view n = view m := by
  induction hSteps with
  | refl => rfl
  | tail _ hLast ih => exact (h _ _ hLast).trans ih

variable {run : Run}

theorem step_trace (m : Machine) (t : Trace) : Step run m (m.record (.trace t)) := .note m trivial

theorem step_log (m : Machine) (e : LogEntry) : Step run m (m.record (.log e)) := .note m trivial

theorem steps_enter (line : Int) (m : Machine) : Steps run m (m.enter line) :=
  ((Relation.ReflTransGen.single (.scopes m m.scopes.push)).tail (step_trace _ _)).tail (step_log _ _)

theorem steps_leave (line : Int) (m : Machine) : Steps run m (m.leave line) :=
  ((Relation.ReflTransGen.single (step_log m _)).tail (step_trace _ _)).tail (.scopes _ _)

end Machine

/-- Why a statement may stop in a run. -/
inductive Stop.Arises (run : Run) : Stop → Prop
  | fault {f : Fault} (hCode : f.code ≠ .budget) : Arises run (.fault f)
  | iterations (keyword : Token) (hLimit : 0 < run.budget.maxIterations) :
      Arises run (.fault ⟨.iterations run.budget.maxIterations.toInt, keyword⟩)
  | time (keyword : Token) {now : Progress} (hLimit : 0 < run.budget.timeout)
      (hAnswer : run.host.interrupt run.budget.timeout run.start now = some .deadline) :
      Arises run (.fault ⟨.time run.budget.timeoutMs, keyword⟩)
  | interrupted {i : Interrupt} {now : Progress}
      (hAnswer : run.host.interrupt run.budget.timeout run.start now = some i)
      (hOther : ¬ (0 < run.budget.timeout ∧ i = .deadline)) : Arises run (.interrupted i)
  | crashed : Arises run .crashed
  | unfinished : Arises run .unfinished

namespace Action

open Machine (Steps steps_enter steps_leave)

variable {α β : Type} {run : Run}

/-- The action takes steps of a run, and stops for the reasons that a run may have. -/
structure IsLawful (run : Run) (x : Action α) : Prop where
  steps : Moves (Steps run) x
  stops : ∀ m stop n, x m = .error stop n → stop.Arises run

theorem isLawful_pure (a : α) : IsLawful run (pure a : Action α) := by
  refine ⟨moves_pure a, fun m stop n hStops => ?_⟩
  cases hStops

theorem isLawful_crash : IsLawful run (throw .crashed : Action α) := by
  refine ⟨moves_throw _, fun m stop n hStops => ?_⟩
  cases hStops
  exact .crashed

theorem isLawful_modify {f : Machine → Machine} (h : ∀ m, Steps run m (f m)) :
    IsLawful run (modify f : Action Unit) := by
  refine ⟨h, fun m stop n hStops => ?_⟩
  cases hStops

/-- A sequence is lawful if its parts are. -/
theorem IsLawful.bind {x : Action α} {f : α → Action β} (h : IsLawful run x)
    (hNext : ∀ a, IsLawful run (f a)) : IsLawful run (x >>= f) := by
  refine ⟨h.steps.bind fun a => (hNext a).steps, fun m stop n hStops => ?_⟩
  change EStateM.bind x f m = .error stop n at hStops
  rw [EStateM.bind] at hStops
  cases hx : x m with
  | ok a k =>
      rw [hx] at hStops
      exact (hNext a).stops k stop n hStops
  | error stop' k =>
      rw [hx] at hStops
      cases hStops
      exact h.stops m _ _ hx

theorem isLawful_trace (t : Trace) : IsLawful run (trace t) :=
  isLawful_modify fun m => .single (Machine.step_trace m t)

theorem isLawful_define (name : Text) (value : Slot) :
    IsLawful run (modify fun m : Machine => { m with scopes := m.scopes.define name value }) :=
  isLawful_modify fun m => .single (.scopes m _)

/-- An expression takes one step, which changes the scopes. -/
theorem isLawful_eval (e : Expr) : IsLawful run (eval e) := by
  constructor
  · intro m
    rw [eval, ofEvaluation]
    cases e.eval m.scopes with
    | ok v c => exact .single (.scopes m c)
    | error f c => exact .single (.scopes m c)
  · intro m stop n hStops
    obtain ⟨f, hCode, rfl⟩ := stop_of_eval hStops
    exact .fault hCode

/-- A write takes the steps of an attempt, and fails for the output sink only. -/
theorem isLawful_write (keyword : Token) (text : Text) : IsLawful run (write run keyword text) := by
  constructor
  · intro m
    rw [write]
    cases hRefusal : run.host.refusal m.progress.attempts with
    | none => exact .single (.write m _ hRefusal)
    | some reason => exact .single (.refuse m hRefusal)
  · intro m stop n hStops
    obtain ⟨f, hCode, rfl⟩ := stop_of_write hStops
    exact .fault hCode

/-- The check of the clock stops for the reasons that the run has. -/
theorem isLawful_checkTime (keyword : Token) : IsLawful run (checkTime run keyword) := by
  have hPolled (m : Machine) : Steps run m (m.poll run).2 := .single (.poll m)
  constructor
  · intro m
    rw [checkTime]
    specialize hPolled m
    generalize m.poll run = polled at hPolled
    obtain ⟨answer, n⟩ := polled
    cases answer with
    | none => exact hPolled
    | some i =>
        simp only
        split <;> exact hPolled
  · intro m stop n hStops
    rw [checkTime, Machine.poll] at hStops
    cases hAnswer : run.host.interrupt run.budget.timeout run.start m.progress with
    | none =>
        rw [hAnswer] at hStops
        cases hStops
    | some i =>
        rw [hAnswer] at hStops
        simp only at hStops
        split at hStops
        next hTime =>
          cases hStops
          exact .time keyword hTime.1 (hTime.2 ▸ hAnswer)
        next hOther =>
          cases hStops
          exact .interrupted hAnswer hOther

/-- An iteration is counted if the budget allows for it. -/
theorem isLawful_countIteration (keyword : Token) : IsLawful run (countIteration run keyword) := by
  constructor
  · intro m
    rw [countIteration]
    split_ifs with hSpent
    · exact .refl
    · exact .single (.count m hSpent)
  · intro m stop n hStops
    rw [countIteration] at hStops
    split_ifs at hStops with hSpent
    cases hStops
    exact .iterations keyword hSpent.1

/-- A loop takes the steps of its tests and iterations, or is left unfinished. -/
theorem IsLawful.repeatWhile {test : Action Bool} {body : Action Unit} (hTest : IsLawful run test)
    (hBody : IsLawful run body) (horizon : Nat) : IsLawful run (repeatWhile test body horizon) := by
  induction horizon with
  | zero =>
      refine ⟨moves_throw _, fun m stop n hStops => ?_⟩
      cases hStops
      exact .unfinished
  | succ horizon ih =>
      rw [repeatWhile_succ]
      refine hTest.bind fun holds => ?_
      split
      · exact hBody.bind fun _ => ih
      · exact isLawful_pure ()

/-- A scope that is entered is left by a step as well. -/
theorem IsLawful.inScope {body : Action Unit} (h : IsLawful run body) (line : Int) :
    IsLawful run (inScope line body) := by
  constructor
  · intro m
    have hBody := (steps_enter line m).trans (h.steps (m.enter line))
    rw [Action.inScope]
    generalize body (m.enter line) = ran at hBody
    cases ran with
    | ok a n => exact hBody.trans (steps_leave line n)
    | error stop n => exact hBody.trans (steps_leave line n)
  · intro m stop n hStops
    rw [Action.inScope] at hStops
    cases hRan : body (m.enter line) with
    | ok a k =>
        rw [hRan] at hStops
        cases hStops
    | error stop' k =>
        rw [hRan] at hStops
        cases hStops
        exact h.stops _ _ _ hRan

/-- All that statements are put together from is lawful. -/
theorem congruence_isLawful (run : Run) : Congruence run run fun x _ => IsLawful run x where
  pure := isLawful_pure
  bind := IsLawful.bind
  trace := isLawful_trace
  define := isLawful_define
  eval := isLawful_eval
  crash := isLawful_crash
  write := isLawful_write
  checkTime := isLawful_checkTime
  countIteration := isLawful_countIteration
  repeatWhile hTest hBody := hTest.repeatWhile hBody _
  inScope line hBody := hBody.inScope line

end Action

/-- Every statement takes steps of the run it is part of. -/
theorem Stmt.isLawful_exec {run : Run} (s : Stmt) : Action.IsLawful run (s.exec run) :=
  s.congruence_exec (Action.congruence_isLawful run)

end Lox
