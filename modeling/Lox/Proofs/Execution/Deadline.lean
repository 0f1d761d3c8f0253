import Lox.Proofs.Execution.Outcome

/-! Runs that are out of time. A deadline may be noticed inside a loop or between two top-level
statements, and only in a loop does it count as an exhausted budget. -/
namespace Lox

def RunError.IsTimeout : RunError → Prop
  | .budget f => ∃ milliseconds, f.cause = .time milliseconds
  | .interruptedBefore _ i => i = .deadline
  | .interrupted i => i = .deadline
  | .crashed | .unfinished => False

namespace Host

/-- A host on which time passes only when something is written. -/
def slow : Host := ⟨fun _ => none, Timing.interrupt ⟨160000000, 0⟩ none⟩

/-- Nothing but its deadline interrupts a run on the slow host. -/
theorem eq_deadline_of_slow {timeout : Int64} {start now : Progress} {i : Interrupt}
    (h : slow.interrupt timeout start now = some i) : i = .deadline := by
  simp only [slow, Timing.interrupt, untilDeadline, Option.ite_none_right_eq_some, Option.some.injEq] at h
  exact h.2.symm

end Host

namespace Machine

/-- How a run ends for lack of time at a statement, if only its own time limit interrupts it: with its
budget exhausted once the statement has been started, and without a word of it before. -/
theorem Attempted.of_timeout {run : Run} {s : Stmt} {m : Machine} {ended : RunResult × Machine}
    (h : Attempted run s m ended) (hLimit : 0 < run.budget.timeout)
    (hOwn : ∀ now i, run.host.interrupt run.budget.timeout run.start now = some i → i = .deadline)
    {error : RunError} (hError : ended.1.error = some error) (hTimeout : error.IsTimeout) :
    (m.poll run).1 = none ∧ (∃ f, error = .budget f ∧ f.code = .budget) ∨
      (m.poll run).1 = some .deadline ∧ error = .interruptedBefore s.line .deadline := by
  cases h with
  | @interruptedBefore i n hPoll =>
      cases hError
      cases hTimeout
      exact Or.inr ⟨by rw [hPoll], rfl⟩
  | @exhausted f n k hPoll hRan hCode =>
      cases hError
      exact Or.inl ⟨by rw [hPoll], f, rfl, hCode⟩
  | @interrupted i n k hPoll hRan =>
      -- inside a loop the run's own deadline is never passed on as it is
      cases s.isLawful_exec.stops n _ k hRan with
      | interrupted hAnswer hOther => exact absurd ⟨hLimit, hOwn _ i hAnswer⟩ hOther
  | crashed | unfinished =>
      cases hError
      exact hTimeout.elim
  | _ => cases hError

/-- The run ended with its budget exhausted, and this was the last thing found and reported. -/
def EndsExhausted (ended : RunResult × Machine) : Prop :=
  ∃ f, ended.1.error = some (.budget f) ∧ f.code = .budget ∧
    ended.1.diagnostics.getLast? = some f.diagnostic ∧ ended.2.reports.getLast? = some f.diagnostic

/-- What becomes of a run that has a time limit and that nothing but this limit interrupts, if it ends
because time was up. It ends with its budget exhausted exactly if the statement at which it ends had
been started, so that the deadline was noticed in a loop. If it was noticed before that statement, the
run is interrupted there and the budget is not said to be exhausted. -/
theorem execute_of_deadline (host : Host) (budget : Budget) (runId : Text) (horizon : Nat) (p : Program)
    (m : Machine) (hLimit : 0 < budget.timeout)
    (hOwn : ∀ now i, host.interrupt budget.timeout m.progress now = some i → i = .deadline)
    {error : RunError} (hError : (execute host budget runId horizon p m).1.error = some error)
    (hTimeout : error.IsTimeout) :
    let run : Run := ⟨host, budget, runId, horizon, m.progress⟩
    let ended := execute host budget runId horizon p m
    ∃ before s later, p.statements = before ++ s :: later ∧
      EndsAt run (m.begun runId p) before s error ∧
      let answer := ((runAll run before (m.begun runId p)).2.poll run).1
      (EndsExhausted ended ↔ answer = none) ∧
        (answer ≠ none → error = .interruptedBefore s.line .deadline ∧
          ∀ d ∈ ended.1.diagnostics, d.code ≠ .budget) := by
  intro run ended
  obtain ⟨before, s, later, hSplit, hEnds⟩ :=
    @exists_endsAt run (m.begun runId p) error p.statements hError
  have hResult : ended.1 = _ := (congrArg (fun ss => (runAll run ss (m.begun runId p)).1) hSplit).trans
    (hEnds.result_eq later)
  have hReports : ended.2.reports = m.reports ++ ended.1.diagnostics :=
    reports_execute host budget runId horizon p m
  refine ⟨before, s, later, hSplit, hEnds, ?_⟩
  -- the deadline is noticed inside the statement, or when the run asks before it
  rcases (attempted run s _).of_timeout hLimit hOwn hEnds.ends hTimeout with
    ⟨hAnswer, f, rfl, hCode⟩ | ⟨hAnswer, rfl⟩
  · have hLast : ended.1.diagnostics.getLast? = some f.diagnostic := by
      rw [hResult]
      exact List.getLast?_concat
    refine ⟨iff_of_true ⟨f, hError, hCode, hLast, ?_⟩ hAnswer, fun h => absurd hAnswer h⟩
    rw [hReports, List.getLast?_append, hLast]
    rfl
  · refine ⟨iff_of_false ?_ ?_, fun _ => ⟨rfl, ?_⟩⟩
    · rintro ⟨f, hBudget, _⟩
      cases hError.symm.trans hBudget
    · rw [hAnswer]
      exact Option.some_ne_none _
    · rw [hResult]
      simpa [RunResult.andThen, RunError.diagnostics] using (runAll_of_none hEnds.reached).2

/-- The program `{ print true; while (true) { } }`, where the deadline is noticed in the loop. -/
theorem execute_of_deadline_loop :
    let word : Token := Token.read .whileWord "while" 2
    let yes : Expr := .literal (some (.bool true)) 1
    let p : Program := ⟨[.block 1 [.print (Token.read .printWord "print" 1) yes,
      .loop word yes (.block 2 [])]]⟩
    let budget : Budget := ⟨0, 100000000⟩
    let m := Machine.initial
    let error : RunError := .budget ⟨.time 100, word⟩
    0 < budget.timeout ∧
      (∀ now i, Host.slow.interrupt budget.timeout m.progress now = some i → i = .deadline) ∧
      (execute .slow budget [] 2 p m).1.error = some error ∧ error.IsTimeout ∧
      let run : Run := ⟨.slow, budget, [], 2, m.progress⟩
      let ended := execute .slow budget [] 2 p m
      ∃ before s later, p.statements = before ++ s :: later ∧
        EndsAt run (m.begun [] p) before s error ∧
        let answer := ((runAll run before (m.begun [] p)).2.poll run).1
        (EndsExhausted ended ↔ answer = none) ∧
          (answer ≠ none → error = .interruptedBefore s.line .deadline ∧
            ∀ d ∈ ended.1.diagnostics, d.code ≠ .budget) := by
  intro word yes p budget m error
  have hError : (execute .slow budget [] 2 p m).1.error = some error := by decide +kernel
  exact ⟨by decide, fun _ _ => Host.eq_deadline_of_slow, hError, ⟨100, rfl⟩,
    execute_of_deadline .slow budget [] 2 p m (by decide) (fun _ _ => Host.eq_deadline_of_slow) hError
      ⟨100, rfl⟩⟩

/-- The program `print true; print true;`, where the deadline is noticed before the second statement:
the run is out of time, and its budget is not said to be exhausted. -/
theorem not_endsExhausted_of_deadline :
    let print (line : Int) : Stmt :=
      .print (Token.read .printWord "print" line) (.literal (some (.bool true)) line)
    let budget : Budget := ⟨0, 100000000⟩
    let ended := execute .slow budget [] 1 ⟨[print 1, print 2]⟩ .initial
    0 < budget.timeout ∧
      (∀ start now i, Host.slow.interrupt budget.timeout start now = some i → i = .deadline) ∧
      ended.1 = ⟨1, [], some (.interruptedBefore 2 .deadline)⟩ ∧
      RunError.IsTimeout (.interruptedBefore 2 .deadline) ∧ ended.2.reports = [] ∧
      ¬ EndsExhausted ended := by
  intro print budget ended
  have hResult : ended.1 = ⟨1, [], some (.interruptedBefore 2 .deadline)⟩ := by decide +kernel
  have hReports : ended.2.reports = [] := by decide +kernel
  refine ⟨by decide, fun _ _ _ => Host.eq_deadline_of_slow, hResult, rfl, hReports, ?_⟩
  rintro ⟨f, hError, _⟩
  rw [hResult] at hError
  cases hError

end Machine
end Lox
