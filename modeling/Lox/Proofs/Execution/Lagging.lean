import Lox.Proofs.Execution.Confinement
import Lox.Proofs.Execution.Congruence
import Lox.Proofs.Execution.Simulation

/-! Two runs of the same statements of which one may give up earlier than the other. They go the same
way until it does, and what it has written and counted by then the other has as well. -/
namespace Lox

section Lagging

variable {ε σ α β : Type} {G : ε → σ → Prop} {E : ε → Prop} {F : σ → σ → Prop}

/-- Both results are the same and a failure is one of `E`, or the first one was given up as `G` says
and the second one is further on by `F`. -/
inductive Lag (G : ε → σ → Prop) (E : ε → Prop) (F : σ → σ → Prop) :
    EStateM.Result ε σ α → EStateM.Result ε σ α → Prop
  | ok {a s} : Lag G E F (.ok a s) (.ok a s)
  | error {e s} (hError : E e) : Lag G E F (.error e s) (.error e s)
  | gaveUp {e s r} (hGave : G e s) (hFurther : F s (finalState r)) : Lag G E F (.error e s) r

/-- From every state the first computation lags behind the second, which only moves on. -/
structure Lags (G : ε → σ → Prop) (E : ε → Prop) (F : σ → σ → Prop) (x y : EStateM ε σ α) : Prop where
  lag : ∀ s, Lag G E F (x s) (y s)
  moves : Moves F y

/-- A computation that fails as `E` says lags behind itself. -/
theorem lags_self {x : EStateM ε σ α} (hMoves : Moves F x) (h : ∀ s e t, x s = .error e t → E e) :
    Lags G E F x x := by
  refine ⟨fun s => ?_, hMoves⟩
  cases hx : x s with
  | ok a t => exact .ok
  | error e t => exact .error (h s e t hx)

/-- A computation that gives up at once lags behind every other. -/
theorem lags_throw {e : ε} (h : ∀ s, G e s) {y : EStateM ε σ α} (hMoves : Moves F y) :
    Lags G E F (throw e) y :=
  ⟨fun s => .gaveUp (h s) (hMoves s), hMoves⟩

theorem lags_modify {f : σ → σ} (h : ∀ s, F s (f s)) :
    Lags G E F (modify f : EStateM ε σ PUnit) (modify f) :=
  ⟨fun _ => .ok, h⟩

variable [IsPreorder σ F]

theorem lags_pure (a : α) : Lags G E F (pure a : EStateM ε σ α) (pure a) :=
  ⟨fun _ => .ok, moves_pure a⟩

/-- A sequence lags behind if both of its parts do. -/
theorem Lags.bind {x y : EStateM ε σ α} {f g : α → EStateM ε σ β} (h : Lags G E F x y)
    (hNext : ∀ a, Lags G E F (f a) (g a)) : Lags G E F (x >>= f) (y >>= g) := by
  refine ⟨fun s => ?_, h.moves.bind fun a => (hNext a).moves⟩
  have hFirst := h.lag s
  change Lag G E F (EStateM.bind x f s) (EStateM.bind y g s)
  rw [EStateM.bind, EStateM.bind]
  generalize x s = r, y s = r' at hFirst
  cases hFirst with
  | ok => exact (hNext _).lag _
  | error hError => exact .error hError
  | gaveUp hGave hFurther =>
      refine .gaveUp hGave ?_
      cases r' with
      | ok a t => exact IsTrans.trans _ _ _ hFurther ((hNext a).moves t)
      | error e t => exact hFurther

end Lagging

/-- No evaluation exhausts the budget. -/
theorem Expr.code_ne_budget_of_eval {e : Expr} {c d : Chain} {f : Fault} (h : e.eval c = .error f d) :
    f.code ≠ .budget := by
  have hSame := e.agree_eval_rewrite (E := fun f _ => f.code ≠ .budget) Rewriting.keepsMeaning_identity
    (fun cause token hCause => hCause) (List.replicate c.scopes.length true) c c
    (Chain.padded_replicate_iff.mpr ⟨rfl, rfl⟩)
  rw [h] at hSame
  generalize (e.rewrite .identity).eval c = r at hSame
  cases hSame with
  | error hFault _ => exact hFault

namespace Action

variable {run : Run} {m n : Machine} {stop : Stop}

/-- An expression does not stop for the budget. -/
theorem stop_of_eval {e : Expr} (h : eval e m = .error stop n) :
    ∃ f : Fault, f.code ≠ .budget ∧ stop = .fault f := by
  rw [eval, ofEvaluation] at h
  cases hEval : e.eval m.scopes with
  | ok v c => simp [hEval] at h
  | error f c =>
      simp only [hEval, EStateM.Result.error.injEq] at h
      exact ⟨f, Expr.code_ne_budget_of_eval hEval, h.1.symm⟩

/-- A write does not stop for the budget. -/
theorem stop_of_write {keyword : Token} {text : Text} (h : write run keyword text m = .error stop n) :
    ∃ f : Fault, f.code ≠ .budget ∧ stop = .fault f := by
  rw [write] at h
  cases hRefusal : run.host.refusal m.progress.attempts with
  | none => simp [hRefusal] at h
  | some reason =>
      simp only [hRefusal, EStateM.Result.error.injEq] at h
      exact ⟨⟨.write reason, keyword⟩, Code.noConfusion, h.1.symm⟩

/-- The check of the clock stops for an interruption or for the time limit. -/
theorem stop_of_checkTime {keyword : Token} (h : checkTime run keyword m = .error stop n) :
    (∃ i, stop = .interrupted i) ∨
      0 < run.budget.timeout ∧ stop = .fault ⟨.time run.budget.timeoutMs, keyword⟩ := by
  rw [checkTime] at h
  generalize m.poll run = polled at h
  obtain ⟨answer, m'⟩ := polled
  cases answer with
  | none => simp at h
  | some i =>
      simp only at h
      split at h
      next hTime => exact Or.inr ⟨hTime.1, (EStateM.Result.error.inj h).1.symm⟩
      next => exact Or.inl ⟨i, (EStateM.Result.error.inj h).1.symm⟩

end Action

structure Machine.Grows (m n : Machine) : Prop where
  outputs : m.outputs <+: n.outputs
  iterations : m.iterations ≤ n.iterations

namespace Machine

variable {m n : Machine}

instance : IsPreorder Machine Grows where
  refl _ := ⟨List.prefix_rfl, Nat.le_refl _⟩
  trans _ _ _ h h' := ⟨h.outputs.trans h'.outputs, h.iterations.trans h'.iterations⟩

/-- A machine that follows another has written and counted at least as much. -/
theorem Follows.grows {declared written : List Text} (h : Follows declared written m n) : Grows m n :=
  ⟨h.outputs, h.iterations⟩

theorem grows_record (m : Machine) {e : Event} (h : e.output? = none) : Grows m (m.record e) :=
  (follows_record m h : Follows [] [] m _).grows

theorem iterations_record (m : Machine) (e : Event) : (m.record e).iterations = m.iterations := rfl

/-- An event that is no output is not noticed. -/
theorem grows_of_record (m : Machine) {e : Event} (h : e.output? = none) : Grows (m.record e) m :=
  ⟨by rw [outputs_record h], Nat.le_of_eq (iterations_record m e)⟩

theorem Grows.leave (h : Grows m n) (line : Int) : Grows (m.leave line) (n.leave line) :=
  ⟨by simpa using h.outputs, h.iterations⟩

end Machine

namespace Action

open Machine (Grows)

section Lagging

variable {G : Stop → Machine → Prop} {E : Stop → Prop} {run run' : Run}

/-- What is confined in its names only adds to what was written and counted. -/
theorem Keeps.grows {α : Type} {declared written : List Text} {x : Action α}
    (h : Keeps declared written x) : Moves Grows x :=
  Moves.mono h fun hFollows => hFollows.grows

theorem lags_trace (t : Trace) : Lags G E Grows (trace t) (trace t) :=
  lags_modify fun m => m.grows_record rfl

theorem lags_define (name : Text) (value : Slot) :
    Lags G E Grows (modify fun m => { m with scopes := m.scopes.define name value })
      (modify fun m => { m with scopes := m.scopes.define name value }) :=
  lags_modify fun m => ⟨List.prefix_rfl, Nat.le_refl m.iterations⟩

/-- Evaluation is the same in both runs, as long as its faults are admitted. -/
theorem lags_eval (h : ∀ f : Fault, f.code ≠ .budget → E (.fault f)) (e : Expr) :
    Lags G E Grows (eval e) (eval e) := by
  refine lags_self (keeps_eval (List.Subset.refl e.written) : Keeps [] e.written _).grows ?_
  intro m stop n hStops
  obtain ⟨f, hCode, rfl⟩ := stop_of_eval hStops
  exact h f hCode

theorem lags_crash {α : Type} (h : E .crashed) :
    Lags G E Grows (throw .crashed : Action α) (throw .crashed) := by
  refine lags_self (moves_throw _) ?_
  rintro m _ n ⟨⟩
  exact h

/-- A loop lags behind one with a further horizon. -/
theorem lags_repeatWhile (hUnfinished : ∀ m, G .unfinished m) {test test' : Action Bool}
    {body body' : Action Unit} (hTest : Lags G E Grows test test') (hBody : Lags G E Grows body body')
    {horizon horizon' : Nat} (hHorizon : horizon ≤ horizon') :
    Lags G E Grows (repeatWhile test body horizon) (repeatWhile test' body' horizon') := by
  induction horizon generalizing horizon' with
  | zero => exact lags_throw hUnfinished (moves_repeatWhile hTest.moves hBody.moves horizon')
  | succ horizon ih =>
      obtain ⟨horizon', rfl⟩ : ∃ k, horizon' = k + 1 := ⟨horizon' - 1, by omega⟩
      rw [repeatWhile_succ, repeatWhile_succ]
      refine Lags.bind hTest fun holds => ?_
      split
      · exact Lags.bind hBody fun _ => ih (by omega)
      · exact lags_pure ()

/-- A scope is closed on every way out, so giving up inside it is giving up outside. -/
theorem lags_inScope (hLeave : ∀ stop m line, G stop m → G stop (m.leave line))
    {body body' : Action Unit} (h : Lags G E Grows body body') (line : Int) :
    Lags G E Grows (inScope line body) (inScope line body') := by
  constructor
  · intro m
    have hBody := h.lag (m.enter line)
    rw [Action.inScope, Action.inScope]
    generalize body (m.enter line) = r, body' (m.enter line) = r' at hBody
    cases hBody with
    | ok => exact .ok
    | error hError => exact .error hError
    | gaveUp hGave hFurther =>
        refine .gaveUp (hLeave _ _ line hGave) ?_
        cases r' <;> exact hFurther.leave line
  · intro m
    have hEnter : Grows m (m.enter line) := ⟨by rw [Machine.outputs_enter], Nat.le_refl _⟩
    have hBody := IsTrans.trans _ _ _ hEnter (h.moves (m.enter line))
    have hLeave (n : Machine) : Grows n (n.leave line) := ⟨by rw [Machine.outputs_leave], Nat.le_refl _⟩
    rw [Action.inScope]
    generalize body' (m.enter line) = r' at hBody
    cases r' <;> exact IsTrans.trans _ _ _ hBody (hLeave _)

/-- A run lags behind another if it does when it writes, looks at the clock and counts iterations. -/
theorem congruence_lags (hUnfinished : ∀ m, G .unfinished m)
    (hLeave : ∀ stop m line, G stop m → G stop (m.leave line)) (hCrash : E .crashed)
    (hFault : ∀ f : Fault, f.code ≠ .budget → E (.fault f)) (hHorizon : run.horizon ≤ run'.horizon)
    (hWrite : ∀ keyword text, Lags G E Grows (write run keyword text) (write run' keyword text))
    (hTime : ∀ keyword, Lags G E Grows (checkTime run keyword) (checkTime run' keyword))
    (hCount : ∀ keyword, Lags G E Grows (countIteration run keyword) (countIteration run' keyword)) :
    Congruence run run' (Lags G E Grows) where
  pure := lags_pure
  bind := Lags.bind
  trace := lags_trace
  define := lags_define
  eval := lags_eval hFault
  crash := lags_crash hCrash
  write := hWrite
  checkTime := hTime
  countIteration := hCount
  repeatWhile hTest hBody := lags_repeatWhile hUnfinished hTest hBody hHorizon
  inScope line hBody := lags_inScope hLeave hBody line

end Lagging
end Action

/-- A run and another one that lags behind it. They differ in their limits on iterations only, and the
horizon of the one that lags behind is no further. How it gives up depends on the iterations by then. -/
structure Run.Trails (G : Stop → Nat → Prop) (E : Stop → Prop) (run run' : Run) : Prop where
  host : run'.host = run.host
  timeout : run'.budget.timeout = run.budget.timeout
  start : run'.start = run.start
  horizon : run.horizon ≤ run'.horizon
  unfinished : ∀ k, G .unfinished k
  interrupted : ∀ i, E (.interrupted i)
  crashed : E .crashed
  fault : ∀ f : Fault, f.code ≠ .budget → E (.fault f)
  time : 0 < run.budget.timeout → ∀ limit keyword, E (.fault ⟨.time limit, keyword⟩)
  count : ∀ keyword, Lags (fun e m => G e m.iterations) E Machine.Grows
    (Action.countIteration run keyword) (Action.countIteration run' keyword)

/-- Both runs are interrupted at the same time. -/
theorem Run.Trails.poll {G : Stop → Nat → Prop} {E : Stop → Prop} {run run' : Run}
    (h : run.Trails G E run') (m : Machine) : m.poll run' = m.poll run := by
  rw [Machine.poll, Machine.poll, h.host, h.timeout, h.start]

namespace Action

open Machine (Grows)

variable {G : Stop → Nat → Prop} {E : Stop → Prop} {run run' : Run}

/-- The first action lags behind the second, and how it gives up depends on the iterations by then. -/
abbrev LagsBehind {α : Type} (G : Stop → Nat → Prop) (E : Stop → Prop) (x y : Action α) : Prop :=
  Lags (fun e m => G e m.iterations) E Grows x y

theorem lagsBehind_write (h : run.Trails G E run') (keyword : Token) (text : Text) :
    LagsBehind G E (write run keyword text) (write run' keyword text) := by
  have hSame : write run' keyword text = write run keyword text := by
    funext m
    rw [write, write, h.host]
  rw [hSame]
  refine lags_self (keeps_write keyword text : Keeps [] [] _).grows ?_
  intro m stop n hStops
  obtain ⟨f, hCode, rfl⟩ := stop_of_write hStops
  exact h.fault f hCode

theorem lagsBehind_checkTime (h : run.Trails G E run') (keyword : Token) :
    LagsBehind G E (checkTime run keyword) (checkTime run' keyword) := by
  have hSame : checkTime run' keyword = checkTime run keyword := by
    funext m
    rw [checkTime, checkTime, h.poll, Budget.timeoutMs, Budget.timeoutMs, h.timeout]
  rw [hSame]
  refine lags_self (keeps_checkTime keyword : Keeps [] [] _).grows ?_
  intro m stop n hStops
  rcases stop_of_checkTime hStops with ⟨i, rfl⟩ | ⟨hTime, rfl⟩
  · exact h.interrupted i
  · exact h.time hTime _ _

/-- To lag behind is a congruence of runs that differ in their limits. -/
theorem congruence_lagsBehind (h : run.Trails G E run') : Congruence run run' (LagsBehind G E) :=
  congruence_lags (fun m => h.unfinished m.iterations) (fun _ _ _ hGave => hGave) h.crashed h.fault
    h.horizon (lagsBehind_write h) (lagsBehind_checkTime h) h.count

end Action

namespace Stmt

open Lox.Action

variable {G : Stop → Nat → Prop} {E : Stop → Prop} {run run' : Run}

/-- A statement lags behind itself in a run that lags behind another. -/
theorem lagsBehind_exec (h : run.Trails G E run') (s : Stmt) :
    LagsBehind G E (s.exec run) (s.exec run') :=
  s.congruence_exec (congruence_lagsBehind h)

end Stmt

namespace Machine

def reported (f : Fault) (m : Machine) : Machine :=
  let d := f.diagnostic
  ((m.record (.report d)).record (.trace (.runtimeError d.line d.code d.message))).record
    (.log (.statementFailed d.line d.code d.message))

/-- How a run goes on once its next statement has been attempted. -/
def resume (next : Nat → List Diagnostic → Machine → RunResult × Machine) (executed : Nat)
    (diagnostics : List Diagnostic) : EStateM.Result Stop Machine Unit → RunResult × Machine
  | .ok () m => next (executed + 1) diagnostics m
  | .error .unfinished m => (⟨executed, diagnostics.reverse, some .unfinished⟩, m)
  | .error .crashed m => (⟨executed, diagnostics.reverse, some .crashed⟩, m)
  | .error (.interrupted i) m => (⟨executed, diagnostics.reverse, some (.interrupted i)⟩, m)
  | .error (.fault f) m =>
    if f.code = .budget then
      (⟨executed, (f.diagnostic :: diagnostics).reverse, some (.budget f)⟩,
        (m.record (.report f.diagnostic)).record
          (.trace (.budgetExceeded f.diagnostic.line f.diagnostic.message)))
    else next executed (f.diagnostic :: diagnostics) (m.reported f)

/-- A run of top-level statements attempts the first and goes on with the others. -/
theorem runFrom_cons (run : Run) (executed : Nat) (diagnostics : List Diagnostic) (s : Stmt)
    (rest : List Stmt) (m : Machine) :
    runFrom run executed diagnostics (s :: rest) m =
      match m.poll run with
      | (some i, m) => (⟨executed, diagnostics.reverse, some (.interruptedBefore s.line i)⟩, m)
      | (none, m) => resume (runFrom run · · rest) executed diagnostics (s.exec run m) := by
  rw [runFrom]
  generalize m.poll run = polled
  obtain ⟨answer, m⟩ := polled
  cases answer with
  | some i => rfl
  | none =>
      cases hRan : s.exec run m with
      | ok a n => simp only [hRan, resume]
      | error stop n => cases stop <;> simp only [hRan, resume, reported]

def begun (runId : Text) (p : Program) (m : Machine) : Machine :=
  let size := p.statements.length
  ({ m with iterations := 0 }.record (.trace (.runStart p.line size))).record
    (.log (.runStart runId size))

def concluded (runId : Text) (ended : RunResult × Machine) : RunResult × Machine :=
  let executed := ended.1.executed
  let errors := ended.1.diagnostics.length
  (ended.1, (ended.2.record (.trace (.runEnd executed errors))).record
    (.log (.runEnd runId executed errors)))

/-- A program is run statement by statement, between the event of its start and that of its end. -/
theorem execute_eq (host : Host) (budget : Budget) (runId : Text) (horizon : Nat) (p : Program)
    (m : Machine) : execute host budget runId horizon p m = concluded runId
      (runFrom ⟨host, budget, runId, horizon, m.progress⟩ 0 [] p.statements (m.begun runId p)) := rfl

end Machine

/-- A run with a nearer horizon lags behind, and gives up where it is unfinished. -/
theorem Run.trails_horizon (run : Run) {horizon : Nat} (h : run.horizon ≤ horizon) :
    run.Trails (fun stop _ => stop = .unfinished) (· ≠ .unfinished) { run with horizon } where
  host := rfl
  timeout := rfl
  start := rfl
  horizon := h
  unfinished _ := rfl
  interrupted _ := Stop.noConfusion
  crashed := Stop.noConfusion
  fault _ _ := Stop.noConfusion
  time _ _ _ := Stop.noConfusion
  count keyword := by
    refine lags_self (Action.keeps_countIteration keyword : Action.Keeps [] [] _).grows ?_
    rintro m stop n hStops rfl
    rw [Action.countIteration] at hStops
    split at hStops
    · cases hStops
    · cases hStops

namespace Machine

/-- A run that is finished does not depend on its horizon. -/
theorem runFrom_of_horizon_le {run : Run} {horizon : Nat} (hHorizon : run.horizon ≤ horizon)
    {executed : Nat} {diagnostics : List Diagnostic} {ss : List Stmt} {m : Machine}
    (hFinished : (runFrom run executed diagnostics ss m).1.error ≠ some .unfinished) :
    runFrom { run with horizon } executed diagnostics ss m =
      runFrom run executed diagnostics ss m := by
  have hTrails := run.trails_horizon hHorizon
  induction ss generalizing executed diagnostics m with
  | nil => rfl
  | cons s ss ih =>
      rw [runFrom_cons] at hFinished
      rw [runFrom_cons, runFrom_cons, hTrails.poll m]
      generalize m.poll run = polled at hFinished
      obtain ⟨answer, m⟩ := polled
      cases answer with
      | some i => rfl
      | none =>
          have hLag := (Stmt.lagsBehind_exec hTrails s).lag m
          simp only at hFinished ⊢
          generalize s.exec run m = ran, s.exec { run with horizon } m = ran' at hFinished hLag
          cases hLag with
          | ok => exact ih hFinished
          | gaveUp hGave _ =>
              rw [hGave] at hFinished
              exact absurd rfl hFinished
          | @error stop n hError =>
              cases stop with
              | unfinished => exact absurd rfl hError
              | crashed => rw [resume, resume]
              | interrupted i => rw [resume, resume]
              | fault f =>
                  rw [resume] at hFinished
                  rw [resume, resume]
                  split at hFinished
                  next hCode => rw [if_pos hCode, if_pos hCode]
                  next hCode =>
                    rw [if_neg hCode, if_neg hCode]
                    exact ih hFinished

/-- A run that finishes within its horizon is the same under any further one. -/
theorem execute_of_horizon_le {host : Host} {budget : Budget} {runId : Text} {horizon horizon' : Nat}
    (hHorizon : horizon ≤ horizon') {p : Program} {m : Machine}
    (hFinished : (execute host budget runId horizon p m).1.error ≠ some .unfinished) :
    execute host budget runId horizon' p m = execute host budget runId horizon p m := by
  rw [execute_eq] at hFinished
  rw [execute_eq, execute_eq]
  exact congrArg (concluded runId)
    (@runFrom_of_horizon_le ⟨host, budget, runId, horizon, m.progress⟩ _ hHorizon _ _ _ _ hFinished)

end Machine
end Lox
