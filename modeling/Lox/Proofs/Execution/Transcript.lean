import Lox.Proofs.Execution.Tracing

/-! The trace of a whole run. It begins with the start of the run, goes on with one group of events for
each top-level statement that is attempted, and closes with the end of the run. -/
namespace Lox

namespace Trace

/-- How many more scopes are open after an event than before it. -/
def opens : Trace → Int
  | .scopePush .. => 1
  | .scopePop .. => -1
  | _ => 0

def openScopes (ts : List Trace) : Int := (ts.map opens).sum

@[simp] theorem openScopes_nil : openScopes [] = 0 := rfl

@[simp] theorem openScopes_cons (t : Trace) (ts : List Trace) :
    openScopes (t :: ts) = t.opens + openScopes ts := by
  simp [openScopes]

@[simp] theorem openScopes_append (ts us : List Trace) :
    openScopes (ts ++ us) = openScopes ts + openScopes us := by
  simp [openScopes]

/-- An event inside so many scopes tells their number: a scope that is opened counts itself, and so does
one that is closed. -/
def IsAtLevel (level : Int) : Trace → Prop
  | .scopePush _ depth => (depth : Int) = level + 1
  | .scopePop _ depth => (depth : Int) = level
  | _ => True

/-- Every event of a trace that begins inside so many scopes tells their number. -/
def Levels : Int → List Trace → Prop
  | _, [] => True
  | level, t :: ts => t.IsAtLevel level ∧ Levels (level + t.opens) ts

/-- The later part of a trace begins at the level that the earlier one ends at. -/
theorem levels_append {level : Int} {ts us : List Trace} :
    Levels level (ts ++ us) ↔ Levels level ts ∧ Levels (level + openScopes ts) us := by
  induction ts generalizing level with
  | nil => simp [Levels]
  | cons t ts ih =>
      rw [List.cons_append, Levels, Levels, ih, openScopes_cons, Int.add_assoc, and_assoc]

/-- A stretch of a trace closes the scopes that it opens, and they tell their depths. -/
structure Leveled (depth : Nat) (ts : List Trace) : Prop where
  closed : openScopes ts = 0
  levels : Levels depth ts

theorem Leveled.append {depth : Nat} {ts us : List Trace} (h : Leveled depth ts) (h' : Leveled depth us) :
    Leveled depth (ts ++ us) := by
  refine ⟨by rw [openScopes_append, h.closed, h'.closed, Int.add_zero], levels_append.mpr ⟨h.levels, ?_⟩⟩
  rw [h.closed, Int.add_zero]
  exact h'.levels

theorem leveled_nil (depth : Nat) : Leveled depth [] := ⟨rfl, trivial⟩

/-- An event that is about no scope. -/
theorem leveled_singleton (t : Trace) (depth : Nat) (hOpens : t.opens = 0)
    (hLevel : t.IsAtLevel depth) : Leveled depth [t] :=
  ⟨by simp [hOpens], hLevel, trivial⟩

/-- A stretch between the events of its scope is one level deeper. -/
theorem Leveled.scope {depth : Nat} {ts : List Trace} (h : Leveled (depth + 1) ts) (line : Int) :
    Leveled depth (.scopePush line (depth + 1) :: ts ++ [.scopePop line (depth + 1)]) := by
  refine ⟨by simp [h.closed, opens], levels_append.mpr ⟨⟨rfl, h.levels⟩, ?_, trivial⟩⟩
  simp [IsAtLevel, opens, h.closed]

/-- A nested stretch closes the scopes that it opens. -/
theorem Nested.leveled {depth : Nat} {ts : List Trace} (h : Nested depth ts) : Leveled depth ts := by
  induction h with
  | nil depth => exact leveled_nil depth
  | print depth line value => exact leveled_singleton (.print line value) depth rfl trivial
  | stmt line kind _ ih =>
      exact ((leveled_singleton (.stmtStart line kind) _ rfl trivial).append ih).append
        (leveled_singleton (.stmtEnd line) _ rfl trivial)
  | scope line _ ih => exact ih.scope line
  | append _ _ ihFirst ihSecond => exact ihFirst.append ihSecond

/-- A severed stretch closes the scopes that it opens, although its statements do not end. -/
theorem Severed.leveled {depth : Nat} {path : List Stmt} {ts : List Trace} (h : Severed depth path ts) :
    Leveled depth ts := by
  have hStart (s : Stmt) (depth : Nat) : Leveled depth [.stmtStart s.line s.kindName] :=
    leveled_singleton _ depth rfl trivial
  induction h with
  | last s hDone => exact (hStart s _).append hDone.leveled
  | inside s hDone _ ih => exact (hStart s _).append (hDone.leveled.append ih)
  | scope s line hDone _ ih => exact (hStart s _).append ((hDone.leveled.append ih).scope line)

def failure? : Trace → Option Code
  | .runtimeError _ code _ => some code
  | .budgetExceeded .. => some .budget
  | _ => none

def failures (ts : List Trace) : List Code := ts.filterMap failure?

@[simp] theorem failures_append (ts us : List Trace) : failures (ts ++ us) = failures ts ++ failures us := by
  simp [failures]

theorem failures_cons {t : Trace} (h : t.failure? = none) (ts : List Trace) :
    failures (t :: ts) = failures ts := by
  rw [failures, List.filterMap_cons_none h, failures]

/-- Nothing fails inside a nested stretch. -/
theorem Nested.failures_eq {depth : Nat} {ts : List Trace} (h : Nested depth ts) : failures ts = [] := by
  induction h with
  | nil | print => rfl
  | stmt line kind _ ih =>
      rw [failures_append, failures_cons rfl, ih]
      rfl
  | scope line _ ih =>
      rw [failures_append, failures_cons rfl, ih]
      rfl
  | append _ _ ihFirst ihSecond => rw [failures_append, ihFirst, ihSecond, List.append_nil]

/-- Statements that are stopped do not tell of the failure themselves. -/
theorem Severed.failures_eq {depth : Nat} {path : List Stmt} {ts : List Trace}
    (h : Severed depth path ts) : failures ts = [] := by
  induction h with
  | last s hDone => rw [failures_cons rfl, hDone.failures_eq]
  | inside s hDone _ ih => rw [failures_cons rfl, failures_append, hDone.failures_eq, ih, List.append_nil]
  | scope s line hDone _ ih =>
      rw [failures_append, failures_cons rfl, failures_cons rfl, failures_append, hDone.failures_eq, ih]
      rfl

end Trace

open Trace (Nested Severed Leveled failures printedLines openScopes)

namespace Machine

open Stmt (StopsAlong)

/-- The groups of events of top-level statements that are run from a machine, inside so many scopes. A
statement that completes has a nested group. The group of one that fails is severed along the way to
what stopped it, and ends with an event for the failure, unless the run was interrupted or came down:
then nothing follows. After the statement at which a run ends there are no groups. -/
inductive Groups (run : Run) (depth : Nat) : List Stmt → Machine → List (List Trace) → Prop
  | finished (m : Machine) : Groups run depth [] m []
  | interruptedBefore {s : Stmt} {ss : List Stmt} {m n : Machine} {i : Interrupt}
      (hPoll : m.poll run = (some i, n)) : Groups run depth (s :: ss) m []
  | completed {s : Stmt} {ss : List Stmt} {m n k : Machine} {ts : List Trace} {groups : List (List Trace)}
      (hPoll : m.poll run = (none, n)) (hRan : s.exec run n = .ok () k) (hNested : Nested depth ts)
      (hNext : Groups run depth ss k groups) :
      Groups run depth (s :: ss) m ((.stmtStart s.line s.kindName :: ts ++ [.stmtEnd s.line]) :: groups)
  | failed {s : Stmt} {ss : List Stmt} {m n k : Machine} {f : Fault} {path : List Stmt} {ts : List Trace}
      {groups : List (List Trace)} (hPoll : m.poll run = (none, n))
      (hRan : s.exec run n = .error (.fault f) k) (hCode : f.code ≠ .budget)
      (hPath : StopsAlong run (.fault f) s n path) (hSevered : Severed depth path ts)
      (hNext : Groups run depth ss (k.reported f) groups) :
      Groups run depth (s :: ss) m
        ((ts ++ [.runtimeError f.diagnostic.line f.diagnostic.code f.diagnostic.message]) :: groups)
  | exhausted {s : Stmt} {ss : List Stmt} {m n k : Machine} {f : Fault} {path : List Stmt}
      {ts : List Trace} (hPoll : m.poll run = (none, n)) (hRan : s.exec run n = .error (.fault f) k)
      (hCode : f.code = .budget) (hPath : StopsAlong run (.fault f) s n path)
      (hSevered : Severed depth path ts) :
      Groups run depth (s :: ss) m [ts ++ [.budgetExceeded f.diagnostic.line f.diagnostic.message]]
  | interrupted {s : Stmt} {ss : List Stmt} {m n k : Machine} {stop : Stop} {path : List Stmt}
      {ts : List Trace} (hPoll : m.poll run = (none, n)) (hRan : s.exec run n = .error stop k)
      (hStop : stop = .crashed ∨ stop = .unfinished ∨ ∃ i, stop = .interrupted i)
      (hPath : StopsAlong run stop s n path) (hSevered : Severed depth path ts) :
      Groups run depth (s :: ss) m [ts]

variable {run : Run} {depth : Nat} {m n k : Machine} {s : Stmt} {ss : List Stmt} {stop : Stop}

theorem silent_report (m : Machine) (d : Diagnostic) : Silent m (m.record (.report d)) where
  traces := traces_record m _
  depth := rfl
  outputs := by rw [outputs_record rfl, Trace.printedLines_nil, List.append_nil]
  writes := rfl

theorem silent_log (m : Machine) (e : LogEntry) : Silent m (m.record (.log e)) where
  traces := traces_record m _
  depth := rfl
  outputs := by rw [outputs_record rfl, Trace.printedLines_nil, List.append_nil]
  writes := rfl

/-- A failure at top level is told by an event of its own. -/
theorem tells_reported (m : Machine) (f : Fault) : Tells m (m.reported f)
    [.runtimeError f.diagnostic.line f.diagnostic.code f.diagnostic.message] :=
  ((silent_report m f.diagnostic).trans (tells_trace _ rfl)).silent (silent_log _ _)

theorem silent_of_poll {answer : Option Interrupt} (hPoll : m.poll run = (answer, n)) : Silent m n := by
  have hPolled : Silent m (m.poll run).2 := silent_of_eq rfl rfl rfl
  rwa [hPoll] at hPolled

/-- A statement that completes adds a nested stretch between its two events. -/
theorem tells_of_completed (hPoll : m.poll run = (none, n)) (hRan : s.exec run n = .ok () k) :
    ∃ ts, Nested m.scopes.depth ts ∧ Tells m k (.stmtStart s.line s.kindName :: ts ++ [.stmtEnd s.line]) := by
  have hSilent := silent_of_poll hPoll
  obtain ⟨l, hWork, rfl⟩ := Stmt.exists_work_of_ok hRan
  obtain ⟨ts, hTells, hNested⟩ := Stmt.tellsNested_work s _ _ hWork
  rw [← hSilent.depth]
  exact ⟨ts, hNested, hSilent.trans (Stmt.tells_of_work hTells)⟩

/-- A statement that is stopped adds a stretch severed along the way to what stopped it. -/
theorem tells_of_stopped (hPoll : m.poll run = (none, n)) (hRan : s.exec run n = .error stop k) :
    ∃ path ts, StopsAlong run stop s n path ∧ Severed m.scopes.depth path ts ∧ Tells m k ts := by
  have hSilent := silent_of_poll hPoll
  obtain ⟨path, hPath⟩ := Stmt.exists_stopsAlong s n hRan
  obtain ⟨l, ts, hStops, hTells, hSevered⟩ := hPath.tells
  cases hRan.symm.trans hStops
  rw [← hSilent.depth]
  exact ⟨path, ts, hPath, hSevered, hSilent.trans hTells⟩

/-- The groups of top-level statements close the scopes that they open. -/
theorem Groups.leveled {groups : List (List Trace)} (h : Groups run depth ss m groups) :
    Leveled depth groups.flatten := by
  have hError (f : Fault) : Leveled depth
      [.runtimeError f.diagnostic.line f.diagnostic.code f.diagnostic.message] :=
    Trace.leveled_singleton _ depth rfl trivial
  have hExhausted (f : Fault) : Leveled depth [.budgetExceeded f.diagnostic.line f.diagnostic.message] :=
    Trace.leveled_singleton _ depth rfl trivial
  induction h with
  | finished | interruptedBefore => exact Trace.leveled_nil depth
  | completed _ _ hNested _ ih => exact (hNested.stmt _ _).leveled.append ih
  | failed _ _ _ _ hSevered _ ih => exact (hSevered.leveled.append (hError _)).append ih
  | exhausted _ _ _ _ hSevered =>
      rw [List.flatten_singleton]
      exact hSevered.leveled.append (hExhausted _)
  | interrupted _ _ _ _ hSevered =>
      rw [List.flatten_singleton]
      exact hSevered.leveled

/-- What a run of top-level statements tells is made of their groups, and tells of each failure once. -/
theorem exists_groups (run : Run) (ss : List Stmt) (m : Machine) :
    ∃ groups, Groups run m.scopes.depth ss m groups ∧ Tells m (runAll run ss m).2 groups.flatten ∧
      failures groups.flatten = (runAll run ss m).1.diagnostics.map Diagnostic.code := by
  induction ss generalizing m with
  | nil => exact ⟨[], .finished m, refl (r := Silent) m, rfl⟩
  | cons s ss ih =>
      have hAttempted := attempted run s m
      rw [runAll_cons]
      generalize runAll run [s] m = ended at hAttempted
      cases hAttempted with
      | interruptedBefore hPoll => exact ⟨[], .interruptedBefore hPoll, silent_of_poll hPoll, rfl⟩
      | @completed n k hPoll hRan =>
          obtain ⟨ts, hNested, hTells⟩ := tells_of_completed hPoll hRan
          obtain ⟨groups, hGroups, hRest, hFailures⟩ := ih k
          rw [hTells.depth] at hGroups
          refine ⟨_, .completed hPoll hRan hNested hGroups, hTells.trans hRest, ?_⟩
          rw [List.flatten_cons, Trace.failures_append, (hNested.stmt _ _).failures_eq, hFailures]
          rfl
      | @failed f n k hPoll hRan hCode =>
          obtain ⟨path, ts, hPath, hSevered, hTells⟩ := tells_of_stopped hPoll hRan
          -- the run goes on in the machine that has reported the failure
          obtain ⟨groups, hGroups, hRest, hFailures⟩ := ih (k.reported f)
          have hTold := hTells.trans (tells_reported k f)
          rw [hTold.depth] at hGroups
          refine ⟨_, .failed hPoll hRan hCode hPath hSevered hGroups, hTold.trans hRest, ?_⟩
          rw [List.flatten_cons, Trace.failures_append, Trace.failures_append, hSevered.failures_eq,
            hFailures]
          rfl
      | @exhausted f n k hPoll hRan hCode =>
          obtain ⟨path, ts, hPath, hSevered, hTells⟩ := tells_of_stopped hPoll hRan
          refine ⟨_, .exhausted hPoll hRan hCode hPath hSevered, ?_⟩
          rw [List.flatten_singleton, Trace.failures_append, hSevered.failures_eq]
          refine ⟨hTells.trans ((silent_report k _).trans (tells_trace _ rfl)), ?_⟩
          simp [failures, Trace.failure?, followedBy, hCode]
      | @interrupted i n k hPoll hRan =>
          obtain ⟨path, ts, hPath, hSevered, hTells⟩ := tells_of_stopped hPoll hRan
          refine ⟨_, .interrupted hPoll hRan (Or.inr (Or.inr ⟨i, rfl⟩)) hPath hSevered, ?_⟩
          rw [List.flatten_singleton]
          exact ⟨hTells, hSevered.failures_eq⟩
      | @crashed n k hPoll hRan =>
          obtain ⟨path, ts, hPath, hSevered, hTells⟩ := tells_of_stopped hPoll hRan
          refine ⟨_, .interrupted hPoll hRan (Or.inl rfl) hPath hSevered, ?_⟩
          rw [List.flatten_singleton]
          exact ⟨hTells, hSevered.failures_eq⟩
      | @unfinished n k hPoll hRan =>
          obtain ⟨path, ts, hPath, hSevered, hTells⟩ := tells_of_stopped hPoll hRan
          refine ⟨_, .interrupted hPoll hRan (Or.inr (Or.inl rfl)) hPath hSevered, ?_⟩
          rw [List.flatten_singleton]
          exact ⟨hTells, hSevered.failures_eq⟩

/-- The trace of a run begins with the number of its statements. -/
theorem tells_begun (runId : Text) (p : Program) (m : Machine) :
    Tells m (m.begun runId p) [.runStart p.line p.statements.length] := by
  have hReset : Silent m { m with iterations := 0 } := silent_of_eq rfl rfl rfl
  exact (hReset.trans (tells_trace _ rfl)).silent (silent_log _ _)

/-- The trace of a run ends with what came of it. -/
theorem tells_concluded (runId : Text) (ended : RunResult × Machine) :
    Tells ended.2 (concluded runId ended).2
      [.runEnd ended.1.executed ended.1.diagnostics.length] :=
  (tells_trace ended.2 rfl).silent (silent_log _ _)

/-- What a run tells: its start, the groups of its top-level statements, and its end. -/
theorem tells_execute (host : Host) (budget : Budget) (runId : Text) (horizon : Nat) (p : Program)
    (m : Machine) :
    let ended := execute host budget runId horizon p m
    ∃ groups, Groups ⟨host, budget, runId, horizon, m.progress⟩ m.scopes.depth p.statements
        (m.begun runId p) groups ∧
      Tells m ended.2 (.runStart p.line p.statements.length :: groups.flatten ++
        [.runEnd ended.1.executed ended.1.diagnostics.length]) ∧
      failures groups.flatten = ended.1.diagnostics.map Diagnostic.code := by
  intro ended
  obtain ⟨groups, hGroups, hTells, hFailures⟩ :=
    exists_groups ⟨host, budget, runId, horizon, m.progress⟩ p.statements (m.begun runId p)
  have hBegun := tells_begun runId p m
  rw [hBegun.depth] at hGroups
  exact ⟨groups, hGroups, (hBegun.trans hTells).trans (tells_concluded runId _), hFailures⟩

/-- The trace of a run, whatever the program, the limits and the surroundings. It has the start of the
run, a group for each top-level statement that is attempted, and the end of the run with the counts of
the result. `Groups` says what the groups are: nested for a statement that completes, severed along the
way to the failure for one that does not, with the scopes closed before the failure is told. A scope
that is opened tells one more than the number of scopes that are open by then. The lines that are
written are those of the printed values in the trace, one for each, so that a write that is refused
leaves nothing there. -/
theorem execute_traces (host : Host) (budget : Budget) (runId : Text) (horizon : Nat) (p : Program)
    (m : Machine) :
    let run : Run := ⟨host, budget, runId, horizon, m.progress⟩
    let ended := execute host budget runId horizon p m
    ∃ groups, Groups run m.scopes.depth p.statements (m.begun runId p) groups ∧
      ended.2.traces = m.traces ++ (.runStart p.line p.statements.length :: groups.flatten ++
        [.runEnd ended.1.executed ended.1.diagnostics.length]) ∧
      openScopes groups.flatten = 0 ∧
      (∀ before line (depth : Nat) after, groups.flatten = before ++ .scopePush line depth :: after →
        (depth : Int) = m.scopes.depth + openScopes before + 1) ∧
      ended.2.outputs = m.outputs ++ printedLines groups.flatten ∧
      ended.2.progress.writes = m.progress.writes + (printedLines groups.flatten).length := by
  intro run ended
  obtain ⟨groups, hGroups, hTells, _⟩ := tells_execute host budget runId horizon p m
  have hLines : printedLines (.runStart p.line p.statements.length :: groups.flatten ++
      [.runEnd ended.1.executed ended.1.diagnostics.length]) = printedLines groups.flatten := by
    rw [Trace.printedLines_append, Trace.printedLines_cons rfl, Trace.printedLines_cons rfl,
      Trace.printedLines_nil, List.append_nil]
  refine ⟨groups, hGroups, hTells.traces, hGroups.leveled.closed, ?_, ?_, ?_⟩
  · intro before line depth after hSplit
    have hLevels := hGroups.leveled.levels
    rw [hSplit, Trace.levels_append] at hLevels
    exact hLevels.2.1
  · rw [hTells.outputs, hLines]
  · rw [hTells.writes, hLines]

end Machine
end Lox
