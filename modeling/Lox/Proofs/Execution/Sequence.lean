import Lox.Proofs.Execution.Lagging

/-! Runs of top-level statements taken apart. A run goes on from statement to statement until one of
them ends it, and its result is put together from those of its parts. -/
namespace Lox

/-- The result of a run that goes on where another one came to its end. -/
def RunResult.andThen (first second : RunResult) : RunResult :=
  ⟨first.executed + second.executed, first.diagnostics ++ second.diagnostics, second.error⟩

theorem RunResult.andThen_assoc (a b c : RunResult) :
    (a.andThen b).andThen c = a.andThen (b.andThen c) := by
  simp [andThen, Nat.add_assoc]

namespace Machine

/-- The run of top-level statements with nothing before them. -/
def runAll (run : Run) (ss : List Stmt) (m : Machine) : RunResult × Machine := runFrom run 0 [] ss m

/-- Goes on with the machine that a run has left, unless the run was ended early. -/
def followedBy (ended : RunResult × Machine) (next : Machine → RunResult × Machine) :
    RunResult × Machine :=
  match ended.1.error with
  | none => (ended.1.andThen (next ended.2).1, (next ended.2).2)
  | some _ => ended

/-- A run that came to its end is continued, and the results are added. -/
theorem followedBy_of_none {ended : RunResult × Machine} (h : ended.1.error = none)
    (next : Machine → RunResult × Machine) :
    followedBy ended next = (ended.1.andThen (next ended.2).1, (next ended.2).2) := by
  rw [followedBy, h]

/-- A run that was ended early is not continued. -/
theorem followedBy_of_some {ended : RunResult × Machine} {error : RunError}
    (h : ended.1.error = some error) (next : Machine → RunResult × Machine) :
    followedBy ended next = ended := by
  rw [followedBy, h]

@[simp] theorem runAll_nil (run : Run) (m : Machine) : runAll run [] m = (⟨0, [], none⟩, m) := rfl

/-- What came before a run shows in the counts and in the diagnostics only. -/
theorem runFrom_eq (run : Run) (executed : Nat) (diagnostics : List Diagnostic) (ss : List Stmt)
    (m : Machine) :
    runFrom run executed diagnostics ss m =
      (RunResult.andThen ⟨executed, diagnostics.reverse, none⟩ (runAll run ss m).1,
        (runAll run ss m).2) := by
  induction ss generalizing executed diagnostics m with
  | nil => simp [runFrom, RunResult.andThen]
  | cons s ss ih =>
      rw [runAll, runFrom_cons, runFrom_cons]
      generalize m.poll run = polled
      obtain ⟨answer, m⟩ := polled
      cases answer with
      | some i => simp [RunResult.andThen]
      | none =>
          simp only
          cases s.exec run m with
          | ok a n =>
              rw [resume, resume, ih, ih (0 + 1)]
              simp [RunResult.andThen, Nat.add_assoc]
          | error stop n =>
              cases stop with
              | unfinished => simp [resume, RunResult.andThen]
              | crashed => simp [resume, RunResult.andThen]
              | interrupted i => simp [resume, RunResult.andThen]
              | fault f =>
                  rw [resume, resume]
                  split
                  · simp [RunResult.andThen]
                  · rw [ih, ih 0]
                    simp [RunResult.andThen]

/-- What one attempt at a top-level statement can come to. -/
inductive Attempted (run : Run) (s : Stmt) (m : Machine) : RunResult × Machine → Prop
  | interruptedBefore {i n} (hPoll : m.poll run = (some i, n)) :
      Attempted run s m (⟨0, [], some (.interruptedBefore s.line i)⟩, n)
  | completed {n k} (hPoll : m.poll run = (none, n)) (hRan : s.exec run n = .ok () k) :
      Attempted run s m (⟨1, [], none⟩, k)
  | failed {f n k} (hPoll : m.poll run = (none, n)) (hRan : s.exec run n = .error (.fault f) k)
      (hCode : f.code ≠ .budget) : Attempted run s m (⟨0, [f.diagnostic], none⟩, k.reported f)
  | exhausted {f n k} (hPoll : m.poll run = (none, n)) (hRan : s.exec run n = .error (.fault f) k)
      (hCode : f.code = .budget) :
      Attempted run s m (⟨0, [f.diagnostic], some (.budget f)⟩,
        (k.record (.report f.diagnostic)).record
          (.trace (.budgetExceeded f.diagnostic.line f.diagnostic.message)))
  | interrupted {i n k} (hPoll : m.poll run = (none, n))
      (hRan : s.exec run n = .error (.interrupted i) k) :
      Attempted run s m (⟨0, [], some (.interrupted i)⟩, k)
  | crashed {n k} (hPoll : m.poll run = (none, n)) (hRan : s.exec run n = .error .crashed k) :
      Attempted run s m (⟨0, [], some .crashed⟩, k)
  | unfinished {n k} (hPoll : m.poll run = (none, n)) (hRan : s.exec run n = .error .unfinished k) :
      Attempted run s m (⟨0, [], some .unfinished⟩, k)

/-- One attempt at a top-level statement comes to one of the cases. -/
theorem attempted (run : Run) (s : Stmt) (m : Machine) : Attempted run s m (runAll run [s] m) := by
  rw [runAll, runFrom_cons]
  rcases hPoll : m.poll run with ⟨answer, n⟩
  cases answer with
  | some i => exact .interruptedBefore hPoll
  | none =>
      simp only
      cases hRan : s.exec run n with
      | ok a k => exact .completed hPoll hRan
      | error stop k =>
          cases stop with
          | unfinished => exact .unfinished hPoll hRan
          | crashed => exact .crashed hPoll hRan
          | interrupted i => exact .interrupted hPoll hRan
          | fault f =>
              rw [resume]
              split
              next hCode => exact .exhausted hPoll hRan hCode
              next hCode => exact .failed hPoll hRan hCode

/-- A run attempts the first statement and is followed by the run of the others. -/
theorem runAll_cons (run : Run) (s : Stmt) (ss : List Stmt) (m : Machine) :
    runAll run (s :: ss) m = followedBy (runAll run [s] m) (runAll run ss) := by
  rw [runAll, runAll, runFrom_cons, runFrom_cons]
  generalize m.poll run = polled
  obtain ⟨answer, m⟩ := polled
  cases answer with
  | some i => rfl
  | none =>
      simp only
      cases s.exec run m with
      | ok a n =>
          rw [resume, resume, runFrom_eq]
          rfl
      | error stop n =>
          cases stop with
          | unfinished => rfl
          | crashed => rfl
          | interrupted i => rfl
          | fault f =>
              rw [resume, resume]
              split
              · rfl
              · rw [runFrom_eq]
                rfl

/-- A run of some statements and then others. -/
theorem runAll_append (run : Run) (ss ss' : List Stmt) (m : Machine) :
    runAll run (ss ++ ss') m = followedBy (runAll run ss m) (runAll run ss') := by
  induction ss generalizing m with
  | nil => simp [followedBy, RunResult.andThen]
  | cons s ss ih =>
      rw [List.cons_append, runAll_cons, runAll_cons run s ss]
      cases hError : (runAll run [s] m).1.error with
      | some error =>
          rw [followedBy_of_some hError, followedBy_of_some hError, followedBy_of_some hError]
      | none =>
          rw [followedBy_of_none hError, followedBy_of_none hError, ih]
          generalize runAll run [s] m = first
          generalize runAll run ss first.2 = second
          cases hSecond : second.1.error with
          | none =>
              rw [followedBy_of_none hSecond,
                @followedBy_of_none (first.1.andThen second.1, second.2) hSecond,
                RunResult.andThen_assoc]
          | some error =>
              rw [followedBy_of_some hSecond,
                @followedBy_of_some (first.1.andThen second.1, second.2) error hSecond]

/-- A run from a machine ends early at a statement: those before it are all attempted, and the attempt
at it ends the run. -/
structure EndsAt (run : Run) (m : Machine) (before : List Stmt) (s : Stmt) (error : RunError) :
    Prop where
  reached : (runAll run before m).1.error = none
  ends : (runAll run [s] (runAll run before m).2).1.error = some error

variable {run : Run} {m : Machine} {error : RunError}

/-- A run that is ended early is ended at one of its statements. -/
theorem exists_endsAt {ss : List Stmt} (h : (runAll run ss m).1.error = some error) :
    ∃ before s later, ss = before ++ s :: later ∧ EndsAt run m before s error := by
  induction ss generalizing m with
  | nil => simp at h
  | cons s ss ih =>
      cases hFirst : (runAll run [s] m).1.error with
      | some other =>
          rw [runAll_cons, followedBy_of_some hFirst] at h
          exact ⟨[], s, ss, rfl, rfl, h⟩
      | none =>
          rw [runAll_cons, followedBy_of_none hFirst] at h
          obtain ⟨before, s', later, rfl, hBefore, hEnds⟩ := ih h
          have hPassed := runAll_cons run s before m
          rw [followedBy_of_none hFirst] at hPassed
          refine ⟨s :: before, s', later, rfl, ?_, ?_⟩
          · rw [hPassed]
            exact hBefore
          · rw [hPassed]
            exact hEnds

/-- What stands after the statement at which a run ends has no part in it. -/
theorem EndsAt.runAll_eq {before : List Stmt} {s : Stmt} (h : EndsAt run m before s error)
    (later : List Stmt) :
    runAll run (before ++ s :: later) m =
      ((runAll run before m).1.andThen (runAll run [s] (runAll run before m).2).1,
        (runAll run [s] (runAll run before m).2).2) := by
  rw [runAll_append, followedBy_of_none h.reached, runAll_cons, followedBy_of_some h.ends]

/-- A program is run as its statements are, with nothing found before. -/
theorem execute_eq_runAll (host : Host) (budget : Budget) (runId : Text) (horizon : Nat) (p : Program)
    (m : Machine) : execute host budget runId horizon p m = concluded runId
      (runAll ⟨host, budget, runId, horizon, m.progress⟩ p.statements (m.begun runId p)) := rfl

end Machine
end Lox
