import Lox.Proofs.Execution.Sequence
import Lox.Proofs.Execution.Steps

/-! What becomes of the top-level statements of a run. Each one that is attempted completes, is
reported, or ends the run, and after the one that ends it none is attempted. -/
namespace Lox

@[simp] theorem Fault.code_diagnostic (f : Fault) : f.diagnostic.code = f.code := rfl

namespace RunError

/-- What is reported of the statement at which a run ends early. -/
def diagnostics : RunError → List Diagnostic
  | .budget f => [f.diagnostic]
  | _ => []

/-- A run may end so at the statement: an exhausted budget is one, and an interruption before it tells
its line. -/
def IsAt (s : Stmt) : RunError → Prop
  | .budget f => f.code = .budget
  | .interruptedBefore line _ => line = s.line
  | _ => True

end RunError

def Event.report? : Event → Option Diagnostic
  | .report d => some d
  | _ => none

theorem Event.IsNote.report?_eq {e : Event} (h : e.IsNote) : e.report? = none := by
  cases e with
  | report d => exact h.elim
  | _ => rfl

namespace Machine

def reports (m : Machine) : List Diagnostic := m.events.toList.filterMap Event.report?

@[simp] theorem reports_record (m : Machine) (e : Event) :
    (m.record e).reports = m.reports ++ e.report?.toList := by
  simp only [reports, record, Array.toList_push, List.filterMap_append]
  cases h : e.report? <;> simp [h]

/-- The steps of statements report nothing. -/
theorem Step.reports_eq {run : Run} {m n : Machine} (h : Step run m n) : n.reports = m.reports := by
  cases h with
  | note hNote => simp [hNote.report?_eq]
  | write text => simp [reports, Event.report?]
  | _ => rfl

/-- A statement reports nothing itself. -/
theorem reports_exec (run : Run) (s : Stmt) (m : Machine) :
    (finalState (s.exec run m)).reports = m.reports :=
  (s.isLawful_exec.steps m).invariant fun _ _ h => h.reports_eq

variable {run : Run} {s : Stmt} {ss : List Stmt} {m : Machine} {ended : RunResult × Machine}

theorem reports_of_poll {answer : Option Interrupt} {n : Machine} (hPoll : m.poll run = (answer, n)) :
    n.reports = m.reports := by
  have hPolled : (m.poll run).2.reports = m.reports := (Step.poll m).reports_eq
  rwa [hPoll] at hPolled

/-- A statement reports nothing by itself, however it ends. -/
theorem reports_of_exec {n : Machine} {ran : EStateM.Result Stop Machine Unit}
    (hPoll : m.poll run = (none, n)) (hRan : s.exec run n = ran) :
    (finalState ran).reports = m.reports := by
  rw [← hRan, reports_exec, reports_of_poll hPoll]

/-- An attempt reports the diagnostics of its result. -/
theorem Attempted.reports_eq (h : Attempted run s m ended) :
    ended.2.reports = m.reports ++ ended.1.diagnostics := by
  cases h with
  | interruptedBefore hPoll => simpa using reports_of_poll hPoll
  | completed hPoll hRan => simpa [finalState] using reports_of_exec hPoll hRan
  | failed hPoll hRan =>
      simpa [finalState, reported, Event.report?] using reports_of_exec hPoll hRan
  | exhausted hPoll hRan => simpa [finalState, Event.report?] using reports_of_exec hPoll hRan
  | interrupted hPoll hRan => simpa [finalState] using reports_of_exec hPoll hRan
  | crashed hPoll hRan => simpa [finalState] using reports_of_exec hPoll hRan
  | unfinished hPoll hRan => simpa [finalState] using reports_of_exec hPoll hRan

/-- The diagnostics of a run are what it reports, in the same order. -/
theorem reports_runAll (run : Run) (ss : List Stmt) (m : Machine) :
    (runAll run ss m).2.reports = m.reports ++ (runAll run ss m).1.diagnostics := by
  induction ss generalizing m with
  | nil => simp
  | cons s ss ih =>
      have hFirst := (attempted run s m).reports_eq
      rw [runAll_cons]
      cases hError : (runAll run [s] m).1.error with
      | some error => rw [followedBy_of_some hError, hFirst]
      | none =>
          rw [followedBy_of_none hError, ih, hFirst, List.append_assoc]
          rfl

theorem reports_begun (runId : Text) (p : Program) (m : Machine) :
    (m.begun runId p).reports = m.reports := by
  simp only [begun, reports_record, Event.report?, Option.toList_none, List.append_nil]
  rfl

/-- The diagnostics of a program are what its run reports, in the same order. -/
theorem reports_execute (host : Host) (budget : Budget) (runId : Text) (horizon : Nat) (p : Program)
    (m : Machine) :
    (execute host budget runId horizon p m).2.reports =
      m.reports ++ (execute host budget runId horizon p m).1.diagnostics := by
  rw [execute_eq_runAll, ← reports_begun runId p m]
  simpa [concluded, Event.report?] using reports_runAll _ p.statements (m.begun runId p)

/-- A statement after which the run goes on has completed, or has failed with one diagnostic. -/
theorem Attempted.of_none (h : Attempted run s m ended) (hError : ended.1.error = none) :
    ended.1.executed + ended.1.diagnostics.length = 1 ∧
      ∀ d ∈ ended.1.diagnostics, d.code ≠ .budget := by
  cases h with
  | completed => simp
  | failed _ _ hCode => simpa using hCode
  | _ => cases hError

/-- The statement at which a run ends early has not completed, and it is reported only if it has
exhausted the budget. -/
theorem Attempted.of_some (h : Attempted run s m ended) {error : RunError}
    (hError : ended.1.error = some error) :
    ended.1 = ⟨0, error.diagnostics, some error⟩ ∧ error.IsAt s := by
  cases h with
  | interruptedBefore =>
      cases hError
      exact ⟨rfl, rfl⟩
  | exhausted _ _ hCode =>
      cases hError
      exact ⟨rfl, hCode⟩
  | interrupted | crashed | unfinished =>
      cases hError
      exact ⟨rfl, trivial⟩
  | _ => cases hError

/-- A run that comes to its end has attempted every statement, and no budget is exhausted. -/
theorem runAll_of_none (h : (runAll run ss m).1.error = none) :
    (runAll run ss m).1.executed + (runAll run ss m).1.diagnostics.length = ss.length ∧
      ∀ d ∈ (runAll run ss m).1.diagnostics, d.code ≠ .budget := by
  induction ss generalizing m with
  | nil => simp
  | cons s ss ih =>
      cases hError : (runAll run [s] m).1.error with
      | some error =>
          rw [runAll_cons, followedBy_of_some hError, hError] at h
          cases h
      | none =>
          obtain ⟨hCount, hCodes⟩ := (attempted run s m).of_none hError
          rw [runAll_cons, followedBy_of_none hError] at h ⊢
          obtain ⟨hCount', hCodes'⟩ := ih h
          simp only [RunResult.andThen, List.length_append, List.length_cons]
          exact ⟨by omega, List.forall_mem_append.mpr ⟨hCodes, hCodes'⟩⟩

/-- A run that ends early has attempted every statement before the one at which it ends, and the
result tells no more of that one than why it ended the run. -/
theorem EndsAt.result_eq {before : List Stmt} {error : RunError} (h : EndsAt run m before s error)
    (later : List Stmt) :
    (runAll run (before ++ s :: later) m).1 =
      (runAll run before m).1.andThen ⟨0, error.diagnostics, some error⟩ := by
  rw [h.runAll_eq, ((attempted run s _).of_some h.ends).1]

/-- Every top-level statement is accounted for once, whatever the state, the limits and the
surroundings of a run. What is reported are the diagnostics of the result, in their order. A run that
comes to its end has attempted every statement. One that does not has attempted those before some
statement and none after it: the budget is exhausted at that statement, whose diagnostic is then the
last one and the only one of this kind; or the run is interrupted before it or inside it, comes down, or
was not followed to its end, and nothing is reported of it. -/
theorem execute_accounts (host : Host) (budget : Budget) (runId : Text) (horizon : Nat) (p : Program)
    (m : Machine) :
    let run : Run := ⟨host, budget, runId, horizon, m.progress⟩
    let ended := execute host budget runId horizon p m
    let attempted := ended.1.executed + ended.1.diagnostics.length
    ended.2.reports = m.reports ++ ended.1.diagnostics ∧
      match ended.1.error with
      | none =>
        attempted = p.statements.length ∧ ∀ d ∈ ended.1.diagnostics, d.code ≠ .budget
      | some error =>
        ∃ before s later, p.statements = before ++ s :: later ∧
          EndsAt run (m.begun runId p) before s error ∧
          (∀ others, concluded runId (runAll run (before ++ s :: others) (m.begun runId p)) = ended) ∧
          match error with
          | .budget f =>
            f.code = .budget ∧ attempted = before.length + 1 ∧
              ∃ earlier, ended.1.diagnostics = earlier ++ [f.diagnostic] ∧
                ∀ d ∈ earlier, d.code ≠ .budget
          | .interruptedBefore line _ =>
            line = s.line ∧ attempted = before.length ∧ ∀ d ∈ ended.1.diagnostics, d.code ≠ .budget
          | .interrupted _ | .crashed | .unfinished =>
            attempted = before.length ∧ ∀ d ∈ ended.1.diagnostics, d.code ≠ .budget := by
  intro run ended attempted
  refine ⟨reports_execute host budget runId horizon p m, ?_⟩
  have hEnded : ended.1 = (runAll run p.statements (m.begun runId p)).1 := rfl
  cases hError : ended.1.error with
  | none => exact runAll_of_none hError
  | some error =>
      rw [hEnded] at hError
      obtain ⟨before, s, later, hSplit, hEnds⟩ := exists_endsAt hError
      obtain ⟨hCount, hCodes⟩ := runAll_of_none hEnds.reached
      have hAt := ((Machine.attempted run s _).of_some hEnds.ends).2
      have hResult := hEnds.result_eq later
      rw [← hSplit, ← hEnded] at hResult
      refine ⟨before, s, later, hSplit, hEnds, fun others => ?_, ?_⟩
      · rw [hEnds.runAll_eq, ← hEnds.runAll_eq later, ← hSplit]
        rfl
      · simp only [attempted, hResult, RunResult.andThen]
        cases error with
        | budget f => exact ⟨hAt, by simp [RunError.diagnostics]; omega, _, rfl, hCodes⟩
        | interruptedBefore line i =>
            exact ⟨hAt, by simpa [RunError.diagnostics] using hCount,
              by simpa [RunError.diagnostics] using hCodes⟩
        | interrupted | crashed | unfinished =>
            exact ⟨by simpa [RunError.diagnostics] using hCount,
              by simpa [RunError.diagnostics] using hCodes⟩

end Machine
end Lox
