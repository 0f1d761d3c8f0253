import Lox.Proofs.Execution.Sequence
import Lox.Settings

/-! The time limit that settings ask for and the one that runs are given. A limit is set in milliseconds
and kept in nanoseconds of 64 bits, so that only limits up to a certain length are the ones enforced. -/
namespace Lox

section Answers

variable {run run' : Run}

/-- Two runs that differ in nothing but their hosts, which take the same writes and give the same
answers. -/
structure Run.AnsweredAlike (run run' : Run) : Prop where
  budget : run.budget = run'.budget
  horizon : run.horizon = run'.horizon
  refusal : run.host.refusal = run'.host.refusal
  answer : ∀ now, run.host.interrupt run.budget.timeout run.start now =
    run'.host.interrupt run'.budget.timeout run'.start now

/-- Runs that are answered alike are asked to stop at the same time. -/
theorem Run.AnsweredAlike.poll (h : run.AnsweredAlike run') (m : Machine) : m.poll run = m.poll run' := by
  rw [Machine.poll, Machine.poll, h.answer]

/-- Runs that are answered alike do the same. -/
theorem Action.congruence_answeredAlike (h : run.AnsweredAlike run') : Congruence run run' Eq where
  pure _ := rfl
  bind hFirst hNext := by rw [hFirst, funext hNext]
  trace _ := rfl
  define _ _ := rfl
  eval _ := rfl
  crash := rfl
  write keyword text := by
    funext m
    rw [Action.write, Action.write, h.refusal]
  checkTime keyword := by
    funext m
    rw [Action.checkTime, Action.checkTime, h.poll, h.budget]
  countIteration keyword := by
    funext m
    rw [Action.countIteration, Action.countIteration, h.budget]
  repeatWhile hTest hBody := by rw [hTest, hBody, h.horizon]
  inScope line hBody := by rw [hBody]

/-- What a run does depends on its host only through the answers it gets. -/
theorem Machine.runFrom_of_answeredAlike (h : run.AnsweredAlike run') (ss : List Stmt) (executed : Nat)
    (diagnostics : List Diagnostic) (m : Machine) :
    runFrom run executed diagnostics ss m = runFrom run' executed diagnostics ss m := by
  induction ss generalizing executed diagnostics m with
  | nil => rfl
  | cons s ss ih =>
      have hNext : (runFrom run · · ss) = (runFrom run' · · ss) := by
        funext executed diagnostics m
        exact ih executed diagnostics m
      rw [runFrom_cons, runFrom_cons, h.poll, hNext,
        s.congruence_exec (Action.congruence_answeredAlike h)]

end Answers

namespace Host

variable (refusal : Nat → Option Text) (clock : Progress → Nat)

/-- A host with a clock that nobody cancels runs on. -/
def clocked : Host := ⟨refusal, untilDeadline clock⟩

/-- The same host, which grants every run a limit of its own choice, however many nanoseconds these are.
A limit that is not positive is none. -/
def granting (limit : Int) : Host where
  refusal := refusal
  interrupt _ start now :=
    if 0 < limit ∧ clock start + limit ≤ clock now then some .deadline else none

/-- The limit that is kept in 64 bits is the one that is granted. -/
theorem untilDeadline_eq (timeout : Int64) (start now : Progress) :
    untilDeadline clock timeout start now =
      (granting refusal clock timeout.toInt).interrupt timeout start now := by
  have hPositive : 0 < timeout ↔ 0 < timeout.toInt := Int64.lt_iff_toInt_lt
  rw [untilDeadline, expiry, granting]
  by_cases hLimit : 0 < timeout
  · have hWhole : (timeout.toInt.toNat : Int) = timeout.toInt :=
      Int.toNat_of_nonneg (Int.le_of_lt (hPositive.mp hLimit))
    have hExpired : clock start + timeout.toInt.toNat ≤ clock now ↔
        (clock start : Int) + timeout.toInt ≤ clock now := by omega
    simp only [if_pos hLimit, Option.any_some, decide_eq_true_eq, hExpired, hPositive.mp hLimit, true_and]
  · simp [hLimit, mt hPositive.mpr hLimit]

end Host

namespace Budget

/-- Under the budget every run by whatever clock goes as if it were granted `limit` nanoseconds. -/
def Grants (b : Budget) (limit : Int) : Prop :=
  ∀ (refusal : Nat → Option Text) (clock : Progress → Nat) (runId : Text) (horizon : Nat) (p : Program)
    (m : Machine), Machine.execute (.clocked refusal clock) b runId horizon p m =
      Machine.execute (.granting refusal clock limit) b runId horizon p m

/-- A budget grants the time limit that it holds. -/
theorem grants_timeout (b : Budget) : b.Grants b.timeout.toInt := by
  intro refusal clock runId horizon p m
  let run : Run := ⟨.clocked refusal clock, b, runId, horizon, m.progress⟩
  let granted : Run := ⟨.granting refusal clock b.timeout.toInt, b, runId, horizon, m.progress⟩
  have hAlike : run.AnsweredAlike granted :=
    ⟨rfl, rfl, rfl, Host.untilDeadline_eq refusal clock b.timeout m.progress⟩
  rw [Machine.execute_eq, Machine.execute_eq, Machine.runFrom_of_answeredAlike hAlike]

def pause : Program := ⟨[.expr (.literal (some .nil) 1), .expr (.literal (some .nil) 1)]⟩

/-- On a clock that ticks with every question whether to go on, the second statement is not begun if the
limit is up after one tick. -/
theorem isSome_error_pause (b : Budget) (limit : Int) (tick : Nat) :
    (Machine.execute (.granting (fun _ => none) (·.polls * tick) limit) b [] 0 pause
      .initial).1.error.isSome ↔ 0 < limit ∧ limit ≤ tick := by
  let run : Run := ⟨.granting (fun _ => none) (·.polls * tick) limit, b, [], 0, Machine.initial.progress⟩
  let begun := Machine.initial.begun [] pause
  have hAnswer {m : Machine} {polls : Nat} (hProgress : m.progress = ⟨0, polls, 0⟩) :
      (m.poll run).1 = if 0 < limit ∧ limit ≤ ↑(polls * tick) then some .deadline else none := by
    simp [Machine.poll, run, Host.granting, Machine.initial, hProgress]
  have hFirst : begun.poll run = (none, (begun.poll run).2) :=
    Prod.ext ((hAnswer (m := begun) rfl).trans (if_neg (by omega))) rfl
  obtain ⟨m, hRan, hProgress⟩ : ∃ m, Stmt.exec run (.expr (.literal (some .nil) 1)) (begun.poll run).2 =
      .ok () m ∧ m.progress = ⟨0, 1, 0⟩ := ⟨_, rfl, rfl⟩
  have hSecond : (Machine.runFrom run 0 [] pause.statements begun).1.error.isSome ↔
      (m.poll run).1.isSome := by
    rw [pause, Machine.runFrom_cons, hFirst]
    simp only
    rw [hRan, Machine.resume, Machine.runFrom_cons]
    generalize m.poll run = polled
    obtain ⟨answer, m⟩ := polled
    cases answer with
    | none => rfl
    | some i => rfl
  rw [Machine.execute_eq]
  refine hSecond.trans ?_
  rw [hAnswer hProgress, Nat.one_mul]
  split_ifs with hExpired <;> simp [hExpired]

/-- Different limits can be told apart by some clock. -/
theorem grants_iff {b : Budget} {limit : Int} (hLimit : 0 < limit) :
    b.Grants limit ↔ b.timeout.toInt = limit := by
  refine ⟨fun hGrants => ?_, fun hSame => hSame ▸ b.grants_timeout⟩
  have hExpires (tick : Nat) :
      0 < limit ∧ limit ≤ tick ↔ 0 < b.timeout.toInt ∧ b.timeout.toInt ≤ tick := by
    rw [← isSome_error_pause b, ← isSome_error_pause b, ← hGrants, b.grants_timeout]
  -- a clock that strikes when one limit is up shows whether the other one is up by then
  have hLate := (hExpires limit.toNat).mp (by omega)
  have hEarly := (hExpires b.timeout.toInt.toNat).mpr (by omega)
  omega

end Budget

namespace Settings

variable {s : Settings}

/-- The time limit that the settings ask for, in nanoseconds, however many these are. -/
def nanoseconds (s : Settings) : Int := s.timeoutMs.toInt * 1000000

/-- The longest time limit in milliseconds of which the nanoseconds fit into 64 bits. -/
def longestMs : Int := (2 ^ 63 - 1) / 1000000

theorem timeoutMs_nonneg (h : s.issues = []) : 0 ≤ s.timeoutMs.toInt := by
  have hLimit : ¬ s.timeoutMs < 0 := fun hNegative => by simp [issues, hNegative] at h
  exact Int64.le_iff_toInt_le.mp (Int64.not_lt.mp hLimit)

/-- The nanoseconds of a time limit are kept modulo 2 ^ 64. -/
theorem toInt_timeout (s : Settings) : s.budget.timeout.toInt = s.nanoseconds.bmod (2 ^ 64) :=
  Int64.toInt_mul s.timeoutMs 1000000

/-- A time limit that is short enough is kept as it is. -/
theorem toInt_timeout_of_le (h : s.issues = []) (hShort : s.timeoutMs.toInt ≤ longestMs) :
    s.budget.timeout.toInt = s.nanoseconds := by
  have hLimit := timeoutMs_nonneg h
  rw [toInt_timeout]
  rw [longestMs] at hShort
  refine Int.bmod_eq_of_le ?_ ?_ <;> rw [nanoseconds] <;> omega

/-- A limit that is too long is cut down. -/
theorem toInt_timeout_lt (hLong : longestMs < s.timeoutMs.toInt) :
    s.budget.timeout.toInt < s.nanoseconds := by
  have hBound := s.budget.timeout.toInt_lt
  rw [longestMs] at hLong
  rw [nanoseconds]
  omega

/-- A time limit is kept as it is just if it is short enough. -/
theorem toInt_timeout_eq_iff (h : s.issues = []) :
    s.budget.timeout.toInt = s.nanoseconds ↔ s.timeoutMs.toInt ≤ longestMs := by
  refine ⟨fun hSame => ?_, toInt_timeout_of_le h⟩
  by_contra hLong
  exact (toInt_timeout_lt (Int.not_le.mp hLong)).ne hSame

/-- Runs are granted the time that the settings ask for exactly if it is not too long. -/
theorem grants_nanoseconds_iff (h : s.issues = []) :
    s.budget.Grants s.nanoseconds ↔ s.timeoutMs.toInt ≤ longestMs := by
  constructor
  · intro hGrants
    by_contra hLong
    have hPositive : 0 < s.nanoseconds := by
      rw [longestMs] at hLong
      rw [nanoseconds]
      omega
    exact hLong ((toInt_timeout_eq_iff h).mp ((Budget.grants_iff hPositive).mp hGrants))
  · intro hShort
    exact toInt_timeout_of_le h hShort ▸ s.budget.grants_timeout

/-- The time limit of settings that make sense. Runs are granted the nanoseconds of the milliseconds that
are set, wrapped around at 64 bits. This is the time that the settings ask for exactly up to the longest
limit. Up to there a limit that is set is in force and a longer one never grants less; beyond, it is
always cut down. -/
theorem budget_grants (s : Settings) (h : s.issues = []) :
    s.budget.timeout.toInt = s.nanoseconds.bmod (2 ^ 64) ∧ s.budget.Grants s.budget.timeout.toInt ∧
      (s.budget.timeout.toInt = s.nanoseconds ↔ s.timeoutMs.toInt ≤ longestMs) ∧
      (s.budget.Grants s.nanoseconds ↔ s.timeoutMs.toInt ≤ longestMs) ∧
      (s.timeoutMs.toInt ≤ longestMs → (0 < s.timeoutMs → 0 < s.budget.timeout) ∧
        ∀ s' : Settings, s'.issues = [] → s'.timeoutMs ≤ s.timeoutMs →
          s'.budget.timeout ≤ s.budget.timeout) ∧
      (longestMs < s.timeoutMs.toInt → s.budget.timeout.toInt < s.nanoseconds) := by
  refine ⟨s.toInt_timeout, s.budget.grants_timeout, toInt_timeout_eq_iff h, grants_nanoseconds_iff h,
    fun hShort => ?_, toInt_timeout_lt⟩
  have hSame := toInt_timeout_of_le h hShort
  constructor
  · intro hPositive
    have hMs := Int64.lt_iff_toInt_lt.mp hPositive
    rw [Int64.lt_iff_toInt_lt, hSame]
    exact Int.mul_pos hMs (by decide)
  · intro s' h' hLess
    have hMs := Int64.le_iff_toInt_le.mp hLess
    rw [Int64.le_iff_toInt_le, hSame, toInt_timeout_of_le h' (hMs.trans hShort)]
    exact Int.mul_le_mul_of_nonneg_right hMs (by decide)

/-- The longest limit, about 292 years. -/
theorem budget_grants_longest :
    let s : Settings := { Settings.default with timeoutMs := 9223372036854 }
    s.issues = [] ∧ s.timeoutMs.toInt ≤ longestMs ∧ s.nanoseconds = 9223372036854000000 ∧
      s.budget.timeout.toInt = s.nanoseconds ∧ s.budget.Grants s.nanoseconds ∧ 0 < s.budget.timeout ∧
      ∀ s' : Settings, s'.issues = [] → s'.timeoutMs ≤ s.timeoutMs →
        s'.budget.timeout ≤ s.budget.timeout := by
  intro s
  have hIssues : s.issues = [] := by decide +kernel
  have hShort : s.timeoutMs.toInt ≤ longestMs := by decide
  obtain ⟨_, _, hTimeout, hGrants, hInForce, _⟩ := budget_grants s hIssues
  exact ⟨hIssues, hShort, by decide +kernel, hTimeout.mpr hShort, hGrants.mpr hShort,
    (hInForce hShort).1 (by decide), (hInForce hShort).2⟩

/-- One millisecond more makes sense as well, and is not in force: its nanoseconds wrap around to a
negative number, which is less than those of a single millisecond and puts no limit on a run. -/
theorem not_grants_beyond_longest :
    let s : Settings := { Settings.default with timeoutMs := 9223372036855 }
    let short : Settings := { Settings.default with timeoutMs := 1 }
    s.issues = [] ∧ short.issues = [] ∧ 0 < s.timeoutMs ∧ short.timeoutMs < s.timeoutMs ∧
      s.budget.timeout.toInt ≠ s.nanoseconds ∧ ¬ 0 < s.budget.timeout ∧
      s.budget.timeout < short.budget.timeout ∧ ¬ s.budget.Grants s.nanoseconds := by
  intro s short
  have hIssues : s.issues = [] := by decide +kernel
  have hLong : longestMs < s.timeoutMs.toInt := by decide
  refine ⟨hIssues, by decide +kernel, by decide, by decide, (toInt_timeout_lt hLong).ne, by decide,
    by decide, ?_⟩
  rw [grants_nanoseconds_iff hIssues]
  exact Int.not_le.mpr hLong

end Settings
end Lox
