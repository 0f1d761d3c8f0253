import Lox.Proofs.Execution.Limits
import Lox.Proofs.Execution.Transcript

/-! Runs that are cut short. A run whose output sink stops taking writes at some point, or that is
cancelled at some write, goes as the undisturbed run does until then, and what it writes is the beginning
of what the undisturbed run writes. -/
namespace Lox

namespace Machine

section Moving

variable {run : Run} {R : Machine → Machine → Prop} [IsPreorder Machine R] {m : Machine}

/-- What every step respects is respected by a run of steps. -/
theorem moves_of_steps (hStep : ∀ m n, Step run m n → R m n) {n : Machine} (h : Steps run m n) :
    R m n := by
  induction h with
  | refl => exact refl m
  | tail _ hLast ih => exact IsTrans.trans _ _ _ ih (hStep _ _ hLast)

/-- A preorder is respected by a top-level statement if its steps and its reports respect it. -/
theorem Attempted.moves (hStep : ∀ m n, Step run m n → R m n)
    (hReport : ∀ m d, R m (m.record (.report d))) {s : Stmt} {ended : RunResult × Machine}
    (h : Attempted run s m ended) : R m ended.2 := by
  have hPolled {answer : Option Interrupt} {n : Machine} (hPoll : m.poll run = (answer, n)) : R m n := by
    have hStepped := hStep m _ (.poll m)
    rwa [hPoll] at hStepped
  have hStopped {stop : Stop} {n k : Machine} (hPoll : m.poll run = (none, n))
      (hRan : s.exec run n = .error stop k) : R m k :=
    IsTrans.trans _ _ _ (hPolled hPoll) (moves_of_steps hStep (s.isLawful_exec.steps.of_error hRan))
  have hTraced (n : Machine) (t : Trace) : R n (n.record (.trace t)) := hStep _ _ (step_trace n t)
  have hLogged (n : Machine) (e : LogEntry) : R n (n.record (.log e)) := hStep _ _ (step_log n e)
  cases h with
  | interruptedBefore hPoll => exact hPolled hPoll
  | completed hPoll hRan =>
      exact IsTrans.trans _ _ _ (hPolled hPoll) (moves_of_steps hStep (s.isLawful_exec.steps.of_ok hRan))
  | @failed f _ k hPoll hRan =>
      have hReported := IsTrans.trans _ _ _ (hStopped hPoll hRan) (hReport k f.diagnostic)
      exact IsTrans.trans _ _ _ (IsTrans.trans _ _ _ hReported (hTraced _ _)) (hLogged _ _)
  | @exhausted f _ k hPoll hRan =>
      have hReported := IsTrans.trans _ _ _ (hStopped hPoll hRan) (hReport k f.diagnostic)
      exact IsTrans.trans _ _ _ hReported (hTraced _ _)
  | interrupted hPoll hRan => exact hStopped hPoll hRan
  | crashed hPoll hRan => exact hStopped hPoll hRan
  | unfinished hPoll hRan => exact hStopped hPoll hRan

/-- What every step of a run does and every report does, a run does. -/
theorem moves_runAll (hStep : ∀ m n, Step run m n → R m n)
    (hReport : ∀ m d, R m (m.record (.report d))) (ss : List Stmt) (m : Machine) :
    R m (runAll run ss m).2 := by
  induction ss generalizing m with
  | nil => exact refl m
  | cons s ss ih =>
      have hFirst := (attempted run s m).moves hStep hReport
      rw [runAll_cons]
      cases hError : (runAll run [s] m).1.error with
      | some error =>
          rw [followedBy_of_some hError]
          exact hFirst
      | none =>
          rw [followedBy_of_none hError]
          exact IsTrans.trans _ _ _ hFirst (ih _)

end Moving

/-- How a run ends that may be cut short, and the same run undisturbed: alike, or the former with an
error and a progress that tell of the cut, and with the first of the writes of the latter. -/
def CutShort (K : Option RunError → Progress → Prop) (cut free : RunResult × Machine) : Prop :=
  cut = free ∨ K cut.1.error cut.2.progress ∧ cut.2.outputs <+: free.2.outputs

section Cutting

variable {run run' : Run} {G : Stop → Machine → Prop} {K : Option RunError → Progress → Prop}

/-- If the rest of a run may be cut short, so may the run. -/
theorem cutShort_resume {next next' : Nat → List Diagnostic → Machine → RunResult × Machine}
    (hNext : ∀ executed diagnostics m,
      CutShort K (next executed diagnostics m) (next' executed diagnostics m))
    (executed : Nat) (diagnostics : List Diagnostic) (ran : EStateM.Result Stop Machine Unit) :
    CutShort K (resume next executed diagnostics ran) (resume next' executed diagnostics ran) := by
  cases ran with
  | ok a m => exact hNext _ _ m
  | error stop m =>
      cases stop with
      | unfinished => exact Or.inl rfl
      | crashed => exact Or.inl rfl
      | interrupted i => exact Or.inl rfl
      | fault f =>
          rw [resume, resume]
          split
          · exact Or.inl rfl
          · exact hNext _ _ _

/-- A run that lags behind another is cut short where it is interrupted or gives up, if it writes
nothing from then on. -/
theorem cutShort_runFrom
    (hExec : ∀ s : Stmt, Lags G (fun _ => True) Grows (s.exec run) (s.exec run'))
    (hPoll : ∀ m : Machine, m.poll run = m.poll run' ∨ ∃ i, (m.poll run).1 = some i ∧
      ∀ error, K (some error) (m.poll run).2.progress)
    (hGave : ∀ stop m ss executed diagnostics, G stop m →
      let ended := resume (runFrom run · · ss) executed diagnostics (.error stop m)
      K ended.1.error ended.2.progress ∧ ended.2.outputs = m.outputs)
    (ss : List Stmt) (executed : Nat) (diagnostics : List Diagnostic) (m : Machine) :
    CutShort K (runFrom run executed diagnostics ss m) (runFrom run' executed diagnostics ss m) := by
  induction ss generalizing executed diagnostics m with
  | nil => exact Or.inl rfl
  | cons s ss ih =>
      have hFree := (leads_runFrom run' (s :: ss) executed diagnostics m).grows.outputs
      rcases hPoll m with hSame | ⟨i, hAnswer, hCut⟩
      · rw [runFrom_cons, runFrom_cons, hSame]
        generalize m.poll run' = polled
        obtain ⟨answer, n⟩ := polled
        cases answer with
        | some i => exact Or.inl rfl
        | none =>
            have hLag := (hExec s).lag n
            simp only
            generalize s.exec run n = ran, s.exec run' n = ran' at hLag
            cases hLag with
            | ok => exact cutShort_resume ih _ _ _
            | error _ => exact cutShort_resume ih _ _ _
            | gaveUp hGave' hFurther =>
                -- what the other run writes from here on comes after all that has been written
                obtain ⟨hKept, hOutputs⟩ := hGave _ _ ss executed diagnostics hGave'
                refine Or.inr ⟨hKept, ?_⟩
                rw [hOutputs]
                exact hFurther.outputs.trans
                  (leads_resume (leads_runFrom run' ss) executed diagnostics ran').grows.outputs
      · right
        have hPolled : (m.poll run).2.outputs = m.outputs := rfl
        rw [runFrom_cons run]
        generalize m.poll run = polled at hAnswer hCut hPolled
        obtain ⟨answer, n⟩ := polled
        cases hAnswer
        refine ⟨hCut _, ?_⟩
        rw [hPolled]
        exact hFree

theorem outputs_concluded (runId : Text) (ended : RunResult × Machine) :
    (concluded runId ended).2.outputs = ended.2.outputs := by
  rw [concluded, outputs_record rfl, outputs_record rfl]

/-- The summary at the end of a run does not hide that it was cut short. -/
theorem CutShort.concluded {cut free : RunResult × Machine} (h : CutShort K cut free) (runId : Text) :
    CutShort K (concluded runId cut) (concluded runId free) := by
  rcases h with hSame | ⟨hKept, hPrefix⟩
  · exact Or.inl (congrArg _ hSame)
  · refine Or.inr ⟨hKept, ?_⟩
    rw [outputs_concluded, outputs_concluded]
    exact hPrefix

end Cutting

/-- A run adds a line to the output for each write. -/
theorem exists_outputs_execute (host : Host) (budget : Budget) (runId : Text) (horizon : Nat)
    (p : Program) (m : Machine) :
    let ended := execute host budget runId horizon p m
    ∃ writes, ended.2.outputs = m.outputs ++ writes ∧
      ended.2.progress.writes = m.progress.writes + writes.length := by
  intro ended
  obtain ⟨groups, _, hTells, _⟩ := tells_execute host budget runId horizon p m
  exact ⟨_, hTells.outputs, hTells.writes⟩

end Machine

/-- The second host differs from the first in its output sink only, which takes `k` writes and none after
that, while the sink of the first takes all. -/
structure Host.FailsFrom (k : Nat) (host failing : Host) : Prop where
  interrupt : failing.interrupt = host.interrupt
  accepts : ∀ attempts, host.refusal attempts = none
  taken : ∀ attempts, attempts < k → failing.refusal attempts = none
  refused : ∀ attempts, k ≤ attempts → failing.refusal attempts ≠ none

namespace Machine

/-- Once `k` writes have been tried, no more are made; and if all that were tried before, apart from `r`,
have been made, it stays so. -/
structure Saturates (k r : Nat) (m n : Machine) : Prop where
  full : k ≤ m.progress.attempts → k ≤ n.progress.attempts ∧ n.outputs = m.outputs
  counted : m.progress.writes + r = min m.progress.attempts k →
    n.progress.writes + r = min n.progress.attempts k

instance (k r : Nat) : IsPreorder Machine (Saturates k r) where
  refl _ := ⟨fun h => ⟨h, rfl⟩, id⟩
  trans _ _ _ h h' :=
    ⟨fun hFull => ⟨(h'.full (h.full hFull).1).1, (h'.full (h.full hFull).1).2.trans (h.full hFull).2⟩,
      fun hCounted => h'.counted (h.counted hCounted)⟩

variable {k r : Nat} {m n : Machine}

/-- Where nothing is tried and nothing written, nothing changes for the output sink. -/
theorem saturates_of_eq (hProgress : n.progress.attempts = m.progress.attempts)
    (hWrites : n.progress.writes = m.progress.writes) (hOutputs : n.outputs = m.outputs) :
    Saturates k r m n := by
  refine ⟨fun hFull => ⟨hProgress ▸ hFull, hOutputs⟩, fun hCounted => ?_⟩
  rw [hProgress, hWrites]
  exact hCounted

/-- No step writes more than the output sink takes. -/
theorem Step.saturates {run : Run} {host : Host} (hFails : host.FailsFrom k run.host)
    (h : Step run m n) : Saturates k r m n := by
  cases h with
  | @note e hNote =>
      refine saturates_of_eq rfl rfl (outputs_record ?_)
      cases e with
      | output | report => cases hNote
      | trace | log => rfl
  | scopes c => exact saturates_of_eq rfl rfl rfl
  | poll => exact saturates_of_eq rfl rfl rfl
  | count => exact saturates_of_eq rfl rfl rfl
  | write text hTaken =>
      have hRoom : m.progress.attempts < k :=
        Nat.lt_of_not_le fun hFull => hFails.refused _ hFull hTaken
      refine ⟨fun hFull => absurd hFull (Nat.not_le.mpr hRoom), fun hCounted => ?_⟩
      simp only [Progress.attempts] at hRoom hCounted ⊢
      omega
  | refuse hRefused =>
      have hFull : k ≤ m.progress.attempts := by
        by_contra hRoom
        rw [hFails.taken _ (Nat.lt_of_not_le hRoom)] at hRefused
        cases hRefused
      refine ⟨fun _ => ⟨hFull.trans ?_, rfl⟩, fun hCounted => ?_⟩
      · simp only [Progress.attempts]
        omega
      · simp only [Progress.attempts] at hFull hCounted ⊢
        omega

/-- Once the output sink is full, a run tries to write but writes no more. -/
theorem saturates_runFrom {host : Host} (run : Run) (hFails : host.FailsFrom k run.host)
    (executed : Nat) (diagnostics : List Diagnostic) (ss : List Stmt) (m : Machine) :
    Saturates k r m (runFrom run executed diagnostics ss m).2 := by
  rw [runFrom_eq]
  refine moves_runAll (fun _ _ hStep => hStep.saturates hFails) (fun m d => ?_) ss m
  exact saturates_of_eq rfl rfl (outputs_record rfl)

end Machine

/-- A statement stops unfinished, or once so many writes have been tried. -/
def Stop.IsRefused (k : Nat) (stop : Stop) (m : Machine) : Prop :=
  stop = .unfinished ∨ k ≤ m.progress.attempts

namespace Action

open Machine (Grows)

variable {run : Run} {failing : Host} {k : Nat}

/-- A write is refused by the failing sink, or goes as it would on the other. -/
theorem lags_write_of_fails (h : run.host.FailsFrom k failing) (keyword : Token) (text : Text) :
    Lags (Stop.IsRefused k) (fun _ => True) Grows
      (write { run with host := failing } keyword text) (write run keyword text) := by
  have hGrows : Moves Grows (write run keyword text) := (keeps_write keyword text : Keeps [] [] _).grows
  refine ⟨fun m => ?_, hGrows⟩
  have hFurther := hGrows m
  rw [write, write, h.accepts] at *
  simp only at hFurther ⊢
  by_cases hRoom : m.progress.attempts < k
  · rw [h.taken _ hRoom]
    exact .ok
  · cases hRefusal : failing.refusal m.progress.attempts with
    | none => exact absurd hRefusal (h.refused _ (Nat.le_of_not_lt hRoom))
    | some reason =>
        refine .gaveUp (Or.inr ?_) ⟨hFurther.outputs, hFurther.iterations⟩
        simp only [Progress.attempts] at hRoom ⊢
        omega

theorem lags_checkTime_of_fails (h : run.host.FailsFrom k failing) (keyword : Token) :
    Lags (Stop.IsRefused k) (fun _ => True) Grows
      (checkTime { run with host := failing } keyword) (checkTime run keyword) := by
  have hSame : checkTime { run with host := failing } keyword = checkTime run keyword := by
    funext m
    rw [checkTime, checkTime, Machine.poll, Machine.poll, h.interrupt]
  rw [hSame]
  exact lags_self (keeps_checkTime keyword : Keeps [] [] _).grows fun _ _ _ _ => trivial

/-- On a failing sink a statement does what it would otherwise, up to the write that fails. -/
theorem lags_exec_of_fails (h : run.host.FailsFrom k failing) (s : Stmt) :
    Lags (Stop.IsRefused k) (fun _ => True) Grows
      (s.exec { run with host := failing }) (s.exec run) := by
  have hCongruence : Congruence { run with host := failing } run
      (Lags (Stop.IsRefused k) (fun _ => True) Grows) :=
    congruence_lags (fun _ => Or.inl rfl) (fun _ _ _ hGave => hGave) trivial (fun _ _ => trivial)
      (Nat.le_refl _) (lags_write_of_fails h) (lags_checkTime_of_fails h) fun keyword =>
        lags_self (keeps_countIteration keyword : Keeps [] [] _).grows fun _ _ _ _ => trivial
  exact s.congruence_exec hCongruence

end Action

namespace Machine

/-- The run is unfinished, or so many writes have been tried. -/
def IsFull (k : Nat) (error : Option RunError) (progress : Progress) : Prop :=
  error = some .unfinished ∨ k ≤ progress.attempts

/-- A failing sink cuts a run short. -/
theorem cutShort_of_fails {run : Run} {failing : Host} {k : Nat} (h : run.host.FailsFrom k failing)
    (ss : List Stmt) (executed : Nat) (diagnostics : List Diagnostic) (m : Machine) :
    CutShort (IsFull k) (runFrom { run with host := failing } executed diagnostics ss m)
      (runFrom run executed diagnostics ss m) := by
  refine cutShort_runFrom (Action.lags_exec_of_fails h) (fun m => Or.inl ?_) ?_ ss executed diagnostics m
  · rw [poll, poll, h.interrupt]
  · intro stop m ss executed diagnostics hGave
    cases stop with
    | unfinished => exact ⟨Or.inl rfl, rfl⟩
    | crashed => exact ⟨Or.inr (hGave.resolve_left Stop.noConfusion), rfl⟩
    | interrupted i => exact ⟨Or.inr (hGave.resolve_left Stop.noConfusion), rfl⟩
    | fault f =>
        have hFull : k ≤ m.progress.attempts := hGave.resolve_left Stop.noConfusion
        have hReported : (m.reported f).outputs = m.outputs := by
          rw [reported, outputs_record rfl, outputs_record rfl, outputs_record rfl]
        rw [resume]
        split
        · exact ⟨Or.inr hFull, by rw [outputs_record rfl, outputs_record rfl]⟩
        · obtain ⟨hStill, hOutputs⟩ := (saturates_runFrom (r := 0) { run with host := failing } h executed
            (f.diagnostic :: diagnostics) ss (m.reported f)).full hFull
          exact ⟨Or.inr hStill, hOutputs.trans hReported⟩

/-- On a sink that takes `n` more writes, exactly the first `n` of the writes are made. -/
theorem outputs_of_fails {host failing : Host} {budget : Budget} {runId : Text} {horizon n : Nat}
    {p : Program} {m : Machine} (h : host.FailsFrom (m.progress.attempts + n) failing)
    (hEnds : (execute failing budget runId horizon p m).1.error ≠ some .unfinished) {writes : List Text}
    (hWrites : (execute host budget runId horizon p m).2.outputs = m.outputs ++ writes) :
    (execute failing budget runId horizon p m).2.outputs = m.outputs ++ writes.take n := by
  have hCut := (@cutShort_of_fails ⟨host, budget, runId, horizon, m.progress⟩ failing _ h
    p.statements 0 [] (m.begun runId p)).concluded runId
  have hCounted := (saturates_runFrom (r := m.progress.refused)
    ⟨failing, budget, runId, horizon, m.progress⟩ h 0 [] p.statements (m.begun runId p)).counted
    (Nat.min_eq_left (Nat.le_add_right _ n)).symm
  change CutShort _ (execute failing budget runId horizon p m) (execute host budget runId horizon p m)
    at hCut
  change (execute failing budget runId horizon p m).2.progress.writes + m.progress.refused =
    min (execute failing budget runId horizon p m).2.progress.attempts (m.progress.attempts + n)
    at hCounted
  obtain ⟨kept, hKept, hCount⟩ := exists_outputs_execute failing budget runId horizon p m
  generalize execute failing budget runId horizon p m = cut at *
  have hAttempts : m.progress.attempts = m.progress.writes + m.progress.refused := rfl
  rw [hKept, List.append_cancel_left_eq]
  rcases hCut with rfl | ⟨hFull, hPrefix⟩
  · obtain rfl : kept = writes := List.append_cancel_left (hKept.symm.trans hWrites)
    exact (List.take_of_length_le (by omega)).symm
  · have hLength : kept.length = n := by
      have hReached := hFull.resolve_left hEnds
      omega
    rw [hKept, hWrites, List.prefix_append_right_inj] at hPrefix
    rw [List.prefix_iff_eq_take.mp hPrefix, hLength]

end Machine

/-- A run that begins at `start` on the second host is interrupted from write number `k` on. Otherwise
the hosts do not differ. -/
structure Host.CancelledFrom (k : Nat) (timeout : Int64) (start : Progress) (host cancelled : Host) :
    Prop where
  refusal : cancelled.refusal = host.refusal
  before : ∀ now : Progress, now.writes < k →
    cancelled.interrupt timeout start now = host.interrupt timeout start now
  after : ∀ now : Progress, k ≤ now.writes → cancelled.interrupt timeout start now ≠ none

/-- By the clock, the cancellation during a write is such a one. -/
theorem Host.Timing.cancelledFrom (t : Timing) (refusal : Nat → Option Text) (timeout : Int64)
    (start : Progress) {k : Nat} (h : start.writes < k) :
    CancelledFrom k timeout start ⟨refusal, t.interrupt none⟩ ⟨refusal, t.interrupt (some k)⟩ where
  refusal := rfl
  before now hBefore := by
    simp only [interrupt]
    rw [if_neg (Nat.not_le.mpr h), if_neg (Nat.not_le.mpr hBefore)]
  after now hAfter := by
    simp only [interrupt]
    rw [if_neg (Nat.not_le.mpr h), if_pos hAfter]
    generalize Option.any _ _ = late
    cases late <;> exact Option.some_ne_none _

def Stop.IsCancelled (k : Nat) (stop : Stop) (m : Machine) : Prop :=
  stop = .unfinished ∨
    ((∃ i, stop = .interrupted i) ∨ ∃ f, stop = .fault f ∧ f.code = .budget) ∧ k ≤ m.progress.writes

section Cancelling

variable {run : Run} {cancelled : Host} {k : Nat}

/-- The hosts answer alike until the cancellation, and from then on the run is to stop. -/
theorem Machine.poll_of_cancelled
    (h : Host.CancelledFrom k run.budget.timeout run.start run.host cancelled) (m : Machine) :
    m.poll { run with host := cancelled } = m.poll run ∨
      k ≤ m.progress.writes ∧ ∃ i, (m.poll { run with host := cancelled }).1 = some i := by
  by_cases hBefore : m.progress.writes < k
  · left
    rw [poll, poll, h.before _ hBefore]
  · have hAfter := Nat.le_of_not_lt hBefore
    exact Or.inr ⟨hAfter, Option.ne_none_iff_exists'.mp (h.after _ hAfter)⟩

namespace Action

open Machine (Grows)

theorem lags_write_of_cancelled
    (h : Host.CancelledFrom k run.budget.timeout run.start run.host cancelled) (keyword : Token)
    (text : Text) : Lags (Stop.IsCancelled k) (fun _ => True) Grows
      (write { run with host := cancelled } keyword text) (write run keyword text) := by
  have hSame : write { run with host := cancelled } keyword text = write run keyword text := by
    funext m
    rw [write, write, h.refusal]
  rw [hSame]
  exact lags_self (keeps_write keyword text : Keeps [] [] _).grows fun _ _ _ _ => trivial

/-- The check before an iteration is where a cancellation is noticed. -/
theorem lags_checkTime_of_cancelled
    (h : Host.CancelledFrom k run.budget.timeout run.start run.host cancelled) (keyword : Token) :
    Lags (Stop.IsCancelled k) (fun _ => True) Grows
      (checkTime { run with host := cancelled } keyword) (checkTime run keyword) := by
  have hSelf : Lags (Stop.IsCancelled k) (fun _ => True) Grows (checkTime run keyword)
      (checkTime run keyword) :=
    lags_self (keeps_checkTime keyword : Keeps [] [] _).grows fun _ _ _ _ => trivial
  refine ⟨fun m => ?_, hSelf.moves⟩
  rcases m.poll_of_cancelled h with hSame | ⟨hAfter, i, hAnswer⟩
  · have hChecked : checkTime { run with host := cancelled } keyword m = checkTime run keyword m := by
      rw [checkTime, checkTime, hSame]
    rw [hChecked]
    exact hSelf.lag m
  · have hFurther : Grows (m.poll { run with host := cancelled }).2 (finalState (checkTime run keyword m)) :=
      ⟨(hSelf.moves m).outputs, (hSelf.moves m).iterations⟩
    have hReached : k ≤ (m.poll { run with host := cancelled }).2.progress.writes := hAfter
    rw [checkTime]
    generalize m.poll { run with host := cancelled } = polled at hAnswer hFurther hReached
    obtain ⟨answer, n⟩ := polled
    cases hAnswer
    simp only
    split
    · exact .gaveUp (Or.inr ⟨Or.inr ⟨_, rfl, rfl⟩, hReached⟩) hFurther
    · exact .gaveUp (Or.inr ⟨Or.inl ⟨i, rfl⟩, hReached⟩) hFurther

/-- A statement does what it would otherwise, up to the check that notices the cancellation. -/
theorem lags_exec_of_cancelled
    (h : Host.CancelledFrom k run.budget.timeout run.start run.host cancelled) (s : Stmt) :
    Lags (Stop.IsCancelled k) (fun _ => True) Grows (s.exec { run with host := cancelled })
      (s.exec run) := by
  have hCongruence : Congruence { run with host := cancelled } run
      (Lags (Stop.IsCancelled k) (fun _ => True) Grows) :=
    congruence_lags (fun _ => Or.inl rfl) (fun _ _ _ hGave => hGave) trivial (fun _ _ => trivial)
      (Nat.le_refl _) (lags_write_of_cancelled h) (lags_checkTime_of_cancelled h) fun keyword =>
        lags_self (keeps_countIteration keyword : Keeps [] [] _).grows fun _ _ _ _ => trivial
  exact s.congruence_exec hCongruence

end Action

namespace Machine

/-- The run is unfinished, or has ended early after so many writes. -/
def IsCancelled (k : Nat) (error : Option RunError) (progress : Progress) : Prop :=
  error = some .unfinished ∨ error ≠ none ∧ k ≤ progress.writes

/-- A cancellation cuts a run short. -/
theorem cutShort_of_cancelled
    (h : Host.CancelledFrom k run.budget.timeout run.start run.host cancelled) (ss : List Stmt)
    (executed : Nat) (diagnostics : List Diagnostic) (m : Machine) :
    CutShort (IsCancelled k) (runFrom { run with host := cancelled } executed diagnostics ss m)
      (runFrom run executed diagnostics ss m) := by
  refine cutShort_runFrom (Action.lags_exec_of_cancelled h) (fun m => ?_) ?_ ss executed diagnostics m
  · refine (m.poll_of_cancelled h).imp id ?_
    rintro ⟨hAfter, i, hAnswer⟩
    exact ⟨i, hAnswer, fun _ => Or.inr ⟨Option.some_ne_none _, hAfter⟩⟩
  · rintro stop m ss executed diagnostics (rfl | ⟨⟨i, rfl⟩ | ⟨f, rfl, hCode⟩, hAfter⟩)
    · exact ⟨Or.inl rfl, rfl⟩
    · exact ⟨Or.inr ⟨Option.some_ne_none _, hAfter⟩, rfl⟩
    · rw [resume, if_pos hCode]
      exact ⟨Or.inr ⟨Option.some_ne_none _, hAfter⟩, by rw [outputs_record rfl, outputs_record rfl]⟩

/-- A cancelled run writes what came before the cancellation and maybe some of what comes after. -/
theorem outputs_of_cancelled {host : Host} {budget : Budget} {runId : Text} {horizon n : Nat}
    {p : Program} {m : Machine}
    (h : Host.CancelledFrom (m.progress.writes + n) budget.timeout m.progress host cancelled)
    (hEnds : (execute cancelled budget runId horizon p m).1.error ≠ some .unfinished)
    {writes : List Text}
    (hWrites : (execute host budget runId horizon p m).2.outputs = m.outputs ++ writes) :
    let cut := execute cancelled budget runId horizon p m
    (∃ kept, cut.2.outputs = m.outputs ++ kept ∧ kept <+: writes ∧ writes.take n <+: kept) ∧
      (cut.1.error = none → cut = execute host budget runId horizon p m) := by
  intro cut
  have hCut : CutShort (IsCancelled (m.progress.writes + n)) cut (execute host budget runId horizon p m) :=
    (@cutShort_of_cancelled ⟨host, budget, runId, horizon, m.progress⟩ cancelled _ h p.statements 0 []
      (m.begun runId p)).concluded runId
  obtain ⟨kept, hKept, hCount⟩ := exists_outputs_execute cancelled budget runId horizon p m
  change cut.2.outputs = _ at hKept
  change cut.2.progress.writes = _ at hCount
  rcases hCut with hSame | ⟨hCancelled, hPrefix⟩
  · obtain rfl : kept = writes :=
      List.append_cancel_left (hKept.symm.trans ((congrArg (·.2.outputs) hSame).trans hWrites))
    exact ⟨⟨kept, hKept, List.prefix_rfl, List.take_prefix n kept⟩, fun _ => hSame⟩
  · obtain ⟨hError, hReached⟩ := hCancelled.resolve_left hEnds
    rw [hKept, hWrites, List.prefix_append_right_inj] at hPrefix
    refine ⟨⟨kept, hKept, hPrefix, ?_⟩, fun hNone => absurd hNone hError⟩
    rw [List.prefix_iff_eq_take.mp hPrefix]
    exact List.take_prefix_take_left (by omega)

end Machine
end Cancelling

/-- The surroundings have asked a statement to stop, and how the run ends then. The deadline of the run
counts as an exhausted budget. -/
inductive Stop.IsAsked : Stop → RunError → Prop
  | interrupted (i : Interrupt) : IsAsked (.interrupted i) (.interrupted i)
  | late {f : Fault} (hCode : f.code = .budget) : IsAsked (.fault f) (.budget f)

section Halting

variable {run : Run} {stop : Stop} {s t : Stmt} {m n k : Machine}

/-- Where the surroundings ask a run to stop, the test of a loop ends the run and does not come to the
condition. -/
theorem Action.test_of_poll {i : Interrupt} (hPoll : m.poll run = (some i, n)) (keyword : Token) :
    ∃ stop error, Stop.IsAsked stop error ∧
      ∀ condition, test run keyword condition m = .error stop n := by
  have hChecked : checkTime run keyword m =
      if 0 < run.budget.timeout ∧ i = .deadline then
        .error (.fault ⟨.time run.budget.timeoutMs, keyword⟩) n
      else .error (.interrupted i) n := by
    rw [checkTime, hPoll]
  split at hChecked
  · exact ⟨_, _, .late rfl, fun _ => bind_of_error hChecked⟩
  · exact ⟨_, _, .interrupted i, fun _ => bind_of_error hChecked⟩

/-- What stops a statement stops the one that it is part of, and nothing is written on the way out. -/
theorem Stmt.Visits.stops (h : Visits run s m t k) (hPart : t.exec run k = .error stop n) :
    ∃ l, s.exec run m = .error stop l ∧ l.outputs = n.outputs := by
  induction h generalizing n with
  | self => exact ⟨n, hPart, rfl⟩
  | @part t u k l _ hStarts ih =>
      obtain ⟨l, hStops, hOutputs⟩ := ih (hStarts.stops hPart)
      refine ⟨l, hStops, hOutputs.trans ?_⟩
      cases t with
      | block line body => exact Machine.outputs_leave line
      | _ => rfl

namespace Machine

/-- The attempt at a statement that is stopped. -/
theorem runAll_of_stops {error : RunError} (hPoll : m.poll run = (none, n))
    (hRan : s.exec run n = .error stop k) (hAsked : stop.IsAsked error) :
    (runAll run [s] m).1.error = some error ∧ (runAll run [s] m).2.outputs = k.outputs := by
  rw [runAll, runFrom_cons, hPoll]
  simp only [hRan]
  cases hAsked with
  | interrupted i => exact ⟨rfl, rfl⟩
  | late hCode =>
      rw [resume, if_pos hCode]
      exact ⟨rfl, by rw [outputs_record rfl, outputs_record rfl]⟩

/-- Once `writes` writes have been made, the run of a program from a machine comes to its end with the
next top-level statement or the next test of a loop. -/
structure HaltsFrom (writes : Nat) (run : Run) (p : Program) (m : Machine)
    (ended : RunResult × Machine) : Prop where
  /-- The statement is not started, and the run ends with what it has come to. -/
  statement : ∀ before s later, p.statements = before ++ s :: later →
    let reached := runAll run before (m.begun run.runId p)
    reached.1.error = none → writes ≤ reached.2.progress.writes →
    ∃ i, ended = concluded run.runId
      (reached.1.andThen ⟨0, [], some (.interruptedBefore s.line i)⟩, (reached.2.poll run).2)
  /-- The condition is not evaluated, for any other has the same effect, and the run ends with what has
  been written. -/
  condition : ∀ before s later, p.statements = before ++ s :: later →
    let reached := runAll run before (m.begun run.runId p)
    reached.1.error = none → ∀ k, reached.2.poll run = (none, k) →
    ∀ keyword condition body l, s.Visits run k (.loop keyword condition body) l →
    ∀ j, Action.Tries (Action.test run keyword condition) (body.exec run) run.horizon
      (l.started (.loop keyword condition body)) j → writes ≤ j.progress.writes →
    ∃ stop error, Stop.IsAsked stop error ∧
      (∀ other, Action.test run keyword other j = .error stop (j.poll run).2) ∧
      ended.1 = reached.1.andThen ⟨0, error.diagnostics, some error⟩ ∧ ended.2.outputs = j.outputs

/-- A run that is asked to stop from some write on does so at the first opportunity. -/
theorem haltsFrom_execute {host : Host} {budget : Budget} {writes : Nat}
    (h : ∀ now : Progress, writes ≤ now.writes → host.interrupt budget.timeout m.progress now ≠ none)
    (runId : Text) (horizon : Nat) (p : Program) :
    HaltsFrom writes ⟨host, budget, runId, horizon, m.progress⟩ p m
      (execute host budget runId horizon p m) := by
  let run : Run := ⟨host, budget, runId, horizon, m.progress⟩
  have hAsked (n : Machine) (hWrites : writes ≤ n.progress.writes) :
      ∃ i, n.poll run = (some i, (n.poll run).2) := by
    obtain ⟨i, hAnswer⟩ := Option.ne_none_iff_exists'.mp (h n.progress hWrites)
    exact ⟨i, Prod.ext hAnswer rfl⟩
  constructor
  · intro before s later hSplit reached hReached hWrites
    obtain ⟨i, hPoll⟩ := hAsked reached.2 hWrites
    have hAttempt : runAll run [s] reached.2 =
        (⟨0, [], some (.interruptedBefore s.line i)⟩, (reached.2.poll run).2) := by
      rw [runAll, runFrom_cons, hPoll]
      rfl
    have hEnds : EndsAt run (m.begun runId p) before s (.interruptedBefore s.line i) :=
      ⟨hReached, congrArg (·.1.error) hAttempt⟩
    refine ⟨i, ?_⟩
    rw [execute_eq_runAll, hSplit, hEnds.runAll_eq, hAttempt]
  · intro before s later hSplit reached hReached k hPoll keyword condition body l hVisits j hTries hWrites
    obtain ⟨i, hPolled⟩ := hAsked j hWrites
    obtain ⟨stop, error, hStop, hTest⟩ := Action.test_of_poll hPolled keyword
    -- the loop is stopped in its test, and with it every statement around it
    have hLoop : (Stmt.loop keyword condition body).exec run l = .error stop (j.poll run).2 := by
      rw [Stmt.exec_apply, Stmt.work, hTries.stops_of_test (hTest condition)]
    obtain ⟨n, hStops, hOutputs⟩ := hVisits.stops hLoop
    obtain ⟨hEnded, hWritten⟩ := runAll_of_stops hPoll hStops hStop
    have hEnds : EndsAt run (m.begun runId p) before s error := ⟨hReached, hEnded⟩
    refine ⟨stop, error, hStop, hTest, ?_, ?_⟩
    · rw [execute_eq_runAll, hSplit]
      exact hEnds.result_eq later
    · rw [execute_eq_runAll, outputs_concluded, hSplit, hEnds.runAll_eq]
      exact hWritten.trans hOutputs

end Machine
end Halting

namespace Machine

/-- A failing sink and a cancellation only ever cut the output short. Let a run come to its end, whatever
the program, the scopes, the limits and the surroundings, and let `writes` be what it writes. On a sink
that takes only `n` more writes, a run that comes to its end writes the first `n` of them, or all if
there are fewer. A run that is cancelled during its `n`th write ends at the next top-level statement or
test of a loop that comes up; unless it was not followed so far, it writes a beginning of `writes` with at
least the first `n`; and if it ends without an error, it ends just as the other one does. -/
theorem execute_cut_short (host : Host) (budget : Budget) (runId : Text) (p : Program) (m : Machine)
    (n : Nat) {horizon : Nat} (hEnds : (execute host budget runId horizon p m).1.error ≠ some .unfinished) :
    let free := execute host budget runId horizon p m
    ∃ writes, free.2.outputs = m.outputs ++ writes ∧
      (∀ failing horizon', host.FailsFrom (m.progress.attempts + n) failing →
        let cut := execute failing budget runId horizon' p m
        cut.1.error ≠ some .unfinished → cut.2.outputs = m.outputs ++ writes.take n) ∧
      ∀ cancelled horizon',
        host.CancelledFrom (m.progress.writes + n) budget.timeout m.progress cancelled →
        let run : Run := ⟨cancelled, budget, runId, horizon', m.progress⟩
        let cut := execute cancelled budget runId horizon' p m
        HaltsFrom (m.progress.writes + n) run p m cut ∧
        (cut.1.error ≠ some .unfinished →
          (∃ kept, cut.2.outputs = m.outputs ++ kept ∧ kept <+: writes ∧ writes.take n <+: kept) ∧
          (cut.1.error = none → cut = free)) := by
  intro free
  obtain ⟨writes, hWrites, _⟩ := exists_outputs_execute host budget runId horizon p m
  -- runs that are finished may be compared at one horizon
  have hFree (horizon' : Nat) : execute host budget runId (max horizon horizon') p m = free :=
    execute_of_horizon_le (Nat.le_max_left _ _) hEnds
  have hCut {other : Host} {horizon' : Nat}
      (hFinished : (execute other budget runId horizon' p m).1.error ≠ some .unfinished) :
      execute other budget runId (max horizon horizon') p m = execute other budget runId horizon' p m :=
    execute_of_horizon_le (Nat.le_max_right _ _) hFinished
  refine ⟨writes, hWrites, fun failing horizon' hFails => ?_, fun cancelled horizon' hCancelled => ?_⟩
  · intro cut hFinished
    have hSame : execute failing budget runId (max horizon horizon') p m = cut := hCut hFinished
    rw [← hSame]
    refine outputs_of_fails hFails ?_ ((congrArg (·.2.outputs) (hFree horizon')).trans hWrites)
    rwa [hSame]
  · intro run cut
    refine ⟨haltsFrom_execute hCancelled.after runId horizon' p, fun hFinished => ?_⟩
    have hSame : execute cancelled budget runId (max horizon horizon') p m = cut := hCut hFinished
    rw [← hSame, ← hFree horizon']
    refine outputs_of_cancelled hCancelled ?_ ((congrArg (·.2.outputs) (hFree horizon')).trans hWrites)
    rwa [hSame]

/-- The program `{ print true; while (true) print true; } print false;` with three iterations allowed, on
a sink that takes one write and cancelled during the first write, before the loop is come to. -/
theorem execute_cut_short_loop :
    let word : Token := Token.read .whileWord "while" 1
    let keyword : Token := Token.read .printWord "print" 1
    let yes : Expr := .literal (some (.bool true)) 1
    let loop : Stmt := .loop word yes (.print keyword yes)
    let block : Stmt := .block 1 [.print keyword yes, loop]
    let p : Program := ⟨[block, .print keyword (.literal (some (.bool false)) 1)]⟩
    let clock : Host.Timing := ⟨0, 0⟩
    let host : Host := ⟨fun _ => none, clock.interrupt none⟩
    let failing : Host := ⟨fun attempts => if attempts < 1 then none else some "full", clock.interrupt none⟩
    let cancelled : Host := ⟨fun _ => none, clock.interrupt (some 1)⟩
    let budget : Budget := ⟨3, 0⟩
    let m := Machine.initial
    let run : Run := ⟨cancelled, budget, [], 4, m.progress⟩
    let cut := execute cancelled budget [] 4 p m
    (execute host budget [] 4 p m).1.error ≠ some .unfinished ∧
      host.FailsFrom (m.progress.attempts + 1) failing ∧
      host.CancelledFrom (m.progress.writes + 1) budget.timeout m.progress cancelled ∧
      (∃ l, block.Visits run ((m.begun [] p).poll run).2 loop l ∧ l.progress.writes = 1 ∧
        (∃ stop n, ∀ other, Action.test run word other (l.started loop) = .error stop n) ∧
        cut.1.error ≠ none ∧ cut.2.outputs = (l.started loop).outputs) ∧
      ∃ writes, (execute host budget [] 4 p m).2.outputs = m.outputs ++ writes ∧ writes.length = 4 ∧
        (execute failing budget [] 4 p m).2.outputs = m.outputs ++ writes.take 1 ∧
        ∃ kept, cut.2.outputs = m.outputs ++ kept ∧ kept <+: writes ∧ writes.take 1 <+: kept := by
  intro word keyword yes loop block p clock host failing cancelled budget m run cut
  have hEnds : (execute host budget [] 4 p m).1.error ≠ some .unfinished := by decide +kernel
  have hFails : host.FailsFrom (m.progress.attempts + 1) failing :=
    ⟨rfl, fun _ => rfl, fun _ hRoom => if_pos hRoom, fun _ hFull => by
      rw [show failing.refusal _ = _ from if_neg (Nat.not_lt.mpr hFull)]
      exact Option.some_ne_none _⟩
  have hCancelled : host.CancelledFrom (m.progress.writes + 1) budget.timeout m.progress cancelled :=
    clock.cancelledFrom _ _ _ (by decide)
  obtain ⟨writes, hWrites, hFailing, hCut⟩ := execute_cut_short host budget [] p m 1 hEnds
  have hFour : writes.length = 4 := by
    have hLength : (execute host budget [] 4 p m).2.outputs.length = 4 := by decide +kernel
    rw [hWrites] at hLength
    exact hLength
  obtain ⟨hHalts, hKept⟩ := hCut cancelled 4 hCancelled
  obtain ⟨l, hVisits, hOne⟩ : ∃ l, block.Visits run ((m.begun [] p).poll run).2 loop l ∧
      l.progress.writes = 1 :=
    ⟨_, .part .self (.block (.tail rfl (.head _ _ _))), rfl⟩
  obtain ⟨stop, error, -, hTest, hResult, hOutputs⟩ := hHalts.condition [] block _ rfl rfl _ rfl word yes
    (.print keyword yes) l hVisits _ (.first 3 _) (Nat.le_of_eq hOne.symm)
  have hError : cut.1.error ≠ none := by
    rw [show cut.1 = _ from hResult]
    exact Option.some_ne_none _
  exact ⟨hEnds, hFails, hCancelled, ⟨l, hVisits, hOne, ⟨stop, _, hTest⟩, hError, hOutputs⟩, writes, hWrites,
    hFour, hFailing failing 4 hFails (by decide +kernel), (hKept (by decide +kernel)).1⟩

end Machine
end Lox
