import Lox.Proofs.Format.Expr
import Lox.Proofs.Session.Pieces
import Lox.Proofs.Trace.Written

/-! Summaries of written traces. What the trace of a run is summed up to agrees with what came of the
run, unless an event takes a line that is too long to be read. -/
namespace Lox

namespace Trace

def startsStmt : Trace → Bool
  | .stmtStart .. => true
  | _ => false

/-- The name of the code of the failed statement that an event tells of, as it is read. -/
def failedName? : Trace → Option Text
  | .runtimeError _ code _ => some (Json.repaired code.name)
  | _ => none

def opened? : Trace → Option Int
  | .scopePush _ depth => some depth
  | _ => none

/-- How many scopes are open somewhere in a trace. -/
def depths (ts : List Trace) : Set Int := {d | ∃ before, before <+: ts ∧ openScopes before = d}

theorem depths_nil : depths [] = {0} := by
  ext d
  simp [depths, eq_comm]

/-- One more event adds the depth after it. -/
theorem depths_concat (ts : List Trace) (t : Trace) :
    depths (ts ++ [t]) = insert (openScopes (ts ++ [t])) (depths ts) := by
  ext d
  simp only [depths, List.prefix_concat_iff, or_and_right, exists_or, exists_eq_left, Set.mem_insert_iff,
    Set.mem_ofPred_eq, eq_comm]

theorem openScopes_mem_depths (ts : List Trace) : openScopes ts ∈ depths ts :=
  ⟨ts, List.prefix_refl ts, rfl⟩

/-- An event that opens no scope leads no deeper. -/
theorem isGreatest_depths_concat {ts : List Trace} {d : Int} (h : IsGreatest (depths ts) d) {t : Trace}
    (hOpens : t.opens ≤ 0) : IsGreatest (depths (ts ++ [t])) d := by
  have hInsert := h.insert (openScopes (ts ++ [t]))
  have hLess := h.2 (openScopes_mem_depths ts)
  rw [← depths_concat, max_eq_right] at hInsert
  · exact hInsert
  · simp only [openScopes_append, openScopes_cons, openScopes_nil]
    omega

end Trace

namespace TraceSummary

def IsBefore (a b : Text × Nat) : Prop := a.1 ≤ b.1 ∧ a.1 ≠ b.1

/-- The names stand in order, and each that occurs comes with the number of its occurrences. -/
structure Tallies (names : List Text) (counts : List (Text × Nat)) : Prop where
  sorted : counts.Pairwise IsBefore
  lookup : ∀ name, counts.lookup name =
    if names.count name = 0 then none else some (names.count name)

variable {code name : Text} {counts : List (Text × Nat)}

theorem lookup_cons_eq (other : Text) (n : Nat) (counts : List (Text × Nat)) (name : Text) :
    ((other, n) :: counts).lookup name = if name = other then some n else counts.lookup name := by
  by_cases h : name = other
  · simp [h]
  · simp [List.lookup, beq_false_of_ne h, h]

/-- A name that comes before all others is not among them. -/
theorem lookup_eq_none {other : Text} {n : Nat}
    (hSorted : ((other, n) :: counts).Pairwise IsBefore)
    (hLe : code ≤ other) (hNe : other ≠ code) : ((other, n) :: counts).lookup code = none := by
  rw [List.lookup_eq_none_iff]
  intro entry hMem
  rw [bne_iff_ne]
  rintro rfl
  rcases List.mem_cons.mp hMem with rfl | hMem
  · exact hNe rfl
  · exact hNe (List.le_antisymm ((List.pairwise_cons.mp hSorted).1 entry hMem).1 hLe)

/-- Counting a name adds one to its number and leaves the others alone. -/
theorem lookup_count (hSorted : counts.Pairwise IsBefore) :
    (count code counts).lookup name =
      if name = code then some ((counts.lookup code).getD 0 + 1) else counts.lookup name := by
  induction counts with
  | nil =>
      rw [count, lookup_cons_eq]
      rfl
  | cons entry counts ih =>
      obtain ⟨other, n⟩ := entry
      rw [count]
      split
      next hEq =>
        subst hEq
        simp only [lookup_cons_eq]
        split <;> simp
      next hNe =>
        split
        next hLe =>
          rw [lookup_eq_none hSorted (of_decide_eq_true hLe) hNe, lookup_cons_eq]
          rfl
        next =>
          simp only [lookup_cons_eq, ih (List.pairwise_cons.mp hSorted).2, if_neg (Ne.symm hNe)]
          by_cases hName : name = other
          · subst hName
            simp [hNe]
          · simp [hName]

theorem forall_count {P : Text → Prop} (hCode : P code) (h : ∀ entry ∈ counts, P entry.1) :
    ∀ entry ∈ count code counts, P entry.1 := by
  induction counts with
  | nil => exact List.forall_mem_singleton.mpr hCode
  | cons entry counts ih =>
      obtain ⟨hFirst, hRest⟩ := List.forall_mem_cons.mp h
      rw [count]
      split
      · exact List.forall_mem_cons.mpr ⟨hFirst, hRest⟩
      · split
        · exact List.forall_mem_cons.mpr ⟨hCode, h⟩
        · exact List.forall_mem_cons.mpr ⟨hFirst, ih hRest⟩

/-- Counting a name keeps the names in order. -/
theorem sorted_count (hSorted : counts.Pairwise IsBefore) (code : Text) :
    (count code counts).Pairwise IsBefore := by
  induction counts with
  | nil => exact List.pairwise_singleton _ _
  | cons entry counts ih =>
      obtain ⟨other, n⟩ := entry
      obtain ⟨hFirst, hRest⟩ := List.pairwise_cons.mp hSorted
      rw [count]
      split
      next => exact List.pairwise_cons.mpr ⟨hFirst, hRest⟩
      next hNe =>
        split
        next hLe =>
          have hLess : code ≤ other := of_decide_eq_true hLe
          refine List.pairwise_cons.mpr ⟨List.forall_mem_cons.mpr ⟨⟨hLess, Ne.symm hNe⟩, ?_⟩, hSorted⟩
          intro entry hMem
          obtain ⟨hOther, -⟩ := hFirst entry hMem
          refine ⟨List.le_trans hLess hOther, ?_⟩
          rintro rfl
          exact hNe (List.le_antisymm hOther hLess)
        next hLe =>
          have hLess : other ≤ code :=
            (List.le_total other code).resolve_right fun hLess => hLe (decide_eq_true hLess)
          exact List.pairwise_cons.mpr ⟨forall_count (P := fun name => other ≤ name ∧ other ≠ name)
            ⟨hLess, hNe⟩ hFirst, ih hRest⟩

theorem tallies_nil : Tallies [] [] := ⟨List.Pairwise.nil, fun _ => rfl⟩

/-- Counting one more name. -/
theorem Tallies.count {names : List Text} (h : Tallies names counts) (code : Text) :
    Tallies (names ++ [code]) (TraceSummary.count code counts) := by
  refine ⟨sorted_count h.sorted code, fun name => ?_⟩
  rw [lookup_count h.sorted, h.lookup, h.lookup, List.count_append, List.count_singleton]
  by_cases hName : name = code
  · subst hName
    by_cases hZero : names.count name = 0 <;> simp [hZero]
  · simp [hName, Ne.symm hName]

/-- Names are tallied one after the other. -/
theorem Tallies.foldl {names : List Text} (h : Tallies names counts) (more : List Text) :
    Tallies (names ++ more) (more.foldl (fun counts name => TraceSummary.count name counts) counts) := by
  induction more generalizing names counts with
  | nil => simpa using h
  | cons name more ih =>
      rw [← List.singleton_append, ← List.append_assoc]
      exact ih (h.count name)

open Trace (failures openScopes depths Levels)

/-- What a summary says of a trace. -/
structure Sums (ts : List Trace) (s : TraceSummary) : Prop where
  events : s.events = ts.length
  statements : s.statements = ts.countP Trace.startsStmt
  prints : s.prints = (ts.filterMap Trace.printed?).length
  failures : s.runtimeErrors + s.budgetExceeded = (failures ts).length
  errorsByCode : Tallies (ts.filterMap Trace.failedName?) s.errorsByCode
  maxDepth : IsGreatest (depths ts) s.maxDepth

theorem sums_empty : Sums [] empty where
  events := rfl
  statements := rfl
  prints := rfl
  failures := rfl
  errorsByCode := tallies_nil
  maxDepth := by
    rw [Trace.depths_nil]
    exact isGreatest_singleton

/-- The depth of a scope is read back from its event and may be the largest. -/
theorem add_scopePush (s : TraceSummary) (stamp : Stamp) (line : Int) {depth : Nat} (h : depth < 2 ^ 53) :
    s.add ((Trace.scopePush line depth).readBack stamp) =
      { s with
        events := s.events + 1
        runId := if s.runId = [] then Json.repaired stamp.runId else s.runId
        maxDepth := max s.maxDepth depth } := by
  have hDepth := TraceLine.depth?_scopePush stamp line h
  rw [add]
  simp only [hDepth]
  rfl

/-- What one more event changes. -/
structure Adds (s s' : TraceSummary) (t : Trace) : Prop where
  events : s'.events = s.events + 1
  statements : s'.statements = s.statements + [t].countP Trace.startsStmt
  prints : s'.prints = s.prints + ([t].filterMap Trace.printed?).length
  failures : s'.runtimeErrors + s'.budgetExceeded =
    s.runtimeErrors + s.budgetExceeded + (Trace.failures [t]).length
  errorsByCode : s'.errorsByCode = ([t].filterMap Trace.failedName?).foldl
    (fun counts name => count name counts) s.errorsByCode
  maxDepth : s'.maxDepth = t.opened?.elim s.maxDepth (max s.maxDepth)

/-- A summary counts every event, and each for what it is. -/
theorem adds_readBack (s : TraceSummary) (stamp : Stamp) {t : Trace} (h : ∀ n ∈ t.counts, n < 2 ^ 53) :
    Adds s (s.add (t.readBack stamp)) t := by
  cases t with
  | scopePush line depth =>
      rw [add_scopePush s stamp line (h depth List.mem_cons_self)]
      exact ⟨rfl, rfl, rfl, rfl, rfl, rfl⟩
  | runtimeError line code message =>
      have hCode := TraceLine.code?_runtimeError stamp line code message
      refine ⟨rfl, rfl, rfl, Nat.add_right_comm .., ?_, rfl⟩
      rw [add]
      simp only [hCode]
      rfl
  | _ => exact ⟨rfl, rfl, rfl, rfl, rfl, rfl⟩

/-- The summary of a trace and of one more event. -/
theorem Sums.concat {ts : List Trace} {s s' : TraceSummary} {t : Trace} (h : Sums ts s)
    (hAdds : Adds s s' t) (hLevel : t.IsAtLevel (openScopes ts)) : Sums (ts ++ [t]) s' where
  events := by rw [hAdds.events, h.events, List.length_append, List.length_singleton]
  statements := by rw [hAdds.statements, h.statements, List.countP_append]
  prints := by rw [hAdds.prints, h.prints, List.filterMap_append, List.length_append]
  failures := by rw [hAdds.failures, h.failures, Trace.failures_append, List.length_append]
  errorsByCode := by
    rw [hAdds.errorsByCode, List.filterMap_append]
    exact h.errorsByCode.foldl _
  maxDepth := by
    rw [hAdds.maxDepth]
    cases t with
    | scopePush line depth =>
        have hOpen : openScopes (ts ++ [.scopePush line depth]) = depth := by
          simp only [Trace.openScopes_append, Trace.openScopes_cons, Trace.openScopes_nil, Trace.opens]
          exact hLevel.symm
        rw [Trace.depths_concat, hOpen]
        change IsGreatest _ (max s.maxDepth depth)
        rw [max_comm]
        exact h.maxDepth.insert _
    | _ => exact Trace.isGreatest_depths_concat h.maxDepth (by simp [Trace.opens])

/-- What a trace is summed up to. -/
theorem sums_foldl {trace : List (Stamp × Trace)} (hLevels : Levels 0 (trace.map Prod.snd))
    (hCounts : ∀ e ∈ trace, ∀ n ∈ e.2.counts, n < 2 ^ 53) :
    Sums (trace.map Prod.snd) ((trace.map fun e => e.2.readBack e.1).foldl add empty) := by
  induction trace using List.reverseRecOn with
  | nil => exact sums_empty
  | append_singleton trace e ih =>
      rw [List.map_append] at hLevels ⊢
      obtain ⟨hBefore, hLast⟩ := Trace.levels_append.mp hLevels
      obtain ⟨hFirst, hCount⟩ := List.forall_mem_append.mp hCounts
      rw [List.map_append, List.foldl_append]
      rw [Int.zero_add] at hLast
      exact (ih hBefore hFirst).concat (adds_readBack _ _ (hCount e List.mem_cons_self)) hLast.1

/-- A trace is read back unless an event takes a line that is too long. -/
theorem ofText?_traceLines {limit : Nat} {trace : List (Stamp × Trace)}
    (hWithin : ∀ e ∈ trace, e.2.Within limit) (hLimit : limit < 2 ^ 53)
    (hElapsed : ∀ e ∈ trace, e.1.elapsedMs < 2 ^ 53) :
    ofText? (Console.traceLines trace) =
      if ∀ e ∈ trace, (e.2.written e.1).length < Text.lineLimit then
        some ((trace.map fun e => e.2.readBack e.1).foldl add empty)
      else none := by
  let line (e : Stamp × Trace) : Text := e.2.written e.1
  have hText : Console.traceLines trace = (trace.map line).flatMap (· ++ [Text.newline]) := by
    rw [List.flatMap_map, Console.traceLines]
  have hLines := @Text.boundedLines_flatMap (trace.map line)
    (List.forall_mem_map.mpr fun e _ => e.2.all_written e.1)
  have hRead : (trace.map line).filterMap TraceLine.ofText? =
      trace.map fun e => e.2.readBack e.1 := by
    rw [List.filterMap_map, ← List.filterMap_eq_map']
    exact List.filterMap_congr fun e he => Trace.ofText?_written (hWithin e he) hLimit (hElapsed e he)
  rw [ofText?, hText, hLines]
  split_ifs with hShort
  · have hAll : ∀ text ∈ trace.map line, decide (text.length < Text.lineLimit) = true :=
      List.forall_mem_map.mpr fun e he => decide_eq_true (hShort e he)
    rw [List.takeWhile_eq_self_iff.mpr hAll, List.all_eq_true.mpr hAll]
    simp only [Bool.not_true, hRead]
  · have hLong : (trace.map line).all (·.length < Text.lineLimit) = false := by
      rw [← Bool.not_eq_true, List.all_eq_true]
      exact fun hAll => hShort fun e he =>
        of_decide_eq_true (List.forall_mem_map.mp hAll e he)
    rw [hLong]
    rfl

end TraceSummary

namespace Trace

def failureCodes : List Code := [.undefined, .type, .io]

/-- A trace tells what was written, and which failures were reported. -/
structure Accounts (limit : Nat) (ts : List Trace) (outputs : List Text) (failed : List Diagnostic) :
    Prop where
  within : ∀ t ∈ ts, t.Within limit
  levels : Levels 0 ts
  outputs : outputs = printedLines ts
  failures : failures ts = failed.map Diagnostic.code
  codes : ∀ line code message, .runtimeError line code message ∈ ts → code ∈ failureCodes

theorem accounts_nil (limit : Nat) : Accounts limit [] [] [] where
  within := List.forall_mem_nil _
  levels := trivial
  outputs := rfl
  failures := rfl
  codes _ _ _ h := absurd h (List.not_mem_nil)

/-- The names that are read of failed statements are those of the failures that are not exhausted
budgets. -/
theorem filterMap_failedName? {ts : List Trace}
    (h : ∀ line code message, .runtimeError line code message ∈ ts → code ∈ failureCodes) :
    ts.filterMap failedName? = ((failures ts).filter (· ≠ .budget)).map Code.name := by
  have hNames : ∀ code ∈ failureCodes, code ≠ .budget ∧ code.name.all (· < 128) = true := by decide
  induction ts with
  | nil => rfl
  | cons t ts ih =>
      have hRest := ih fun line code message hMem => h line code message (List.mem_cons_of_mem t hMem)
      cases t with
      | runtimeError line code message =>
          obtain ⟨hBudget, hAscii⟩ := hNames code (h line code message List.mem_cons_self)
          have hName : (runtimeError line code message :: ts).filterMap failedName? =
              Json.repaired code.name :: ts.filterMap failedName? := rfl
          have hCode : failures (runtimeError line code message :: ts) = code :: failures ts := rfl
          rw [hName, hRest, hCode, Json.repaired_of_all hAscii,
            List.filter_cons_of_pos (by simpa using hBudget), List.map_cons]
      | budgetExceeded line message =>
          rw [List.filterMap_cons_none rfl, hRest]
          simp [failures, failure?]
      | _ => rw [List.filterMap_cons_none rfl, hRest, failures_cons rfl]

end Trace

/-- A statement fails for an unbound name, a type or the output. -/
theorem Fault.code_mem_failureCodes {f : Fault} (h : f.code ≠ .budget) :
    f.code ∈ Trace.failureCodes := by
  obtain ⟨cause, token⟩ := f
  cases cause with
  | undefined => exact (by decide : Code.undefined ∈ Trace.failureCodes)
  | operands | operator => exact (by decide : Code.type ∈ Trace.failureCodes)
  | iterations | time => exact absurd rfl h
  | write => exact (by decide : Code.io ∈ Trace.failureCodes)

namespace Machine

open Trace (Nested Severed failures failureCodes)

variable {run : Run} {depth : Nat} {m : Machine} {ss : List Stmt}

theorem notMem_of_failures {ts : List Trace} (h : failures ts = []) (line : Int) (code : Code)
    (message : Text) :
    .runtimeError line code message ∉ ts := by
  intro hMem
  have hNone := List.filterMap_eq_nil_iff.mp h _ hMem
  cases hNone

/-- The failures of top-level statements have the codes of statements that fail. -/
theorem Groups.codes {groups : List (List Trace)} (h : Groups run depth ss m groups) {line : Int}
    {code : Code} {message : Text} (hMem : .runtimeError line code message ∈ groups.flatten) :
    code ∈ failureCodes := by
  induction h with
  | finished | interruptedBefore => cases hMem
  | completed _ _ hNested _ ih =>
      rw [List.flatten_cons, List.mem_append] at hMem
      exact hMem.elim (fun hMem => absurd hMem (notMem_of_failures (hNested.stmt _ _).failures_eq _ _ _)) ih
  | failed _ _ hCode _ hSevered _ ih =>
      rw [List.flatten_cons, List.append_assoc, List.mem_append, List.singleton_append, List.mem_cons] at hMem
      rcases hMem with hMem | hMem | hMem
      · exact absurd hMem (notMem_of_failures hSevered.failures_eq _ _ _)
      · cases hMem
        exact Fault.code_mem_failureCodes hCode
      · exact ih hMem
  | exhausted _ _ _ _ hSevered =>
      rw [List.flatten_singleton, List.mem_append, List.mem_singleton] at hMem
      rcases hMem with hMem | hMem
      · exact absurd hMem (notMem_of_failures hSevered.failures_eq _ _ _)
      · cases hMem
  | interrupted _ _ _ _ hSevered =>
      rw [List.flatten_singleton] at hMem
      exact absurd hMem (notMem_of_failures hSevered.failures_eq _ _ _)

/-- The trace of a run from a machine that has shown nothing accounts for the run. -/
theorem accounts_execute {limit : Nat} (host : Host) (budget : Budget) (runId : Text) (horizon : Nat)
    {p : Program} (hPos : 0 < limit) (hp : p.Within limit) (hDepth : m.scopes.depth = 0)
    (hTraces : m.traces = []) (hOutputs : m.outputs = []) :
    let ended := execute host budget runId horizon p m
    Trace.Accounts limit ended.2.traces ended.2.outputs ended.1.diagnostics := by
  intro ended
  obtain ⟨groups, hGroups, hTells, hFailures⟩ := tells_execute host budget runId horizon p m
  have hWithin : ended.2.Within limit 0 :=
    within_execute host budget runId horizon hPos hp ⟨hDepth, by simp [hTraces]⟩
  have hTold := hTells.traces
  have hWritten := hTells.outputs
  rw [hTraces, List.nil_append] at hTold
  rw [hOutputs, List.nil_append] at hWritten
  refine ⟨hWithin.traces, ?_, ?_, ?_, ?_⟩
  · rw [hDepth] at hGroups
    have hLeveled := ((Trace.leveled_singleton (.runStart p.line p.statements.length) 0 rfl trivial).append
      hGroups.leveled).append
        (Trace.leveled_singleton (.runEnd ended.1.executed ended.1.diagnostics.length) 0 rfl trivial)
    rw [hTold]
    exact hLeveled.levels
  · rw [hWritten, hTold]
  · rw [hTold, Trace.failures_append, Trace.failures_cons rfl, hFailures, Trace.failures_cons rfl]
    exact List.append_nil _
  · intro line code message hMem
    rw [hTold, List.mem_append, List.mem_cons, List.mem_singleton] at hMem
    rcases hMem with (hMem | hMem) | hMem
    · cases hMem
    · exact hGroups.codes hMem
    · cases hMem

end Machine

namespace Session

open Machine (Silent silent_report silent_log)

/-- What a session does before a run leaves no trace. -/
theorem silent_prepared (s : Session) (source file : Text) :
    Silent s.machine (s.prepared source file).machine :=
  prepared_of_record (refl (r := Silent) s.machine) (fun m d h => Trans.trans h (silent_report m d))
    (fun m e h => Trans.trans h (silent_log m e)) source file

/-- What a session does after a run leaves no trace. -/
theorem silent_after (s : Session) (file : Text) (ended : RunResult × Machine) :
    Silent ended.2 (s.after file ended).machine :=
  after_of_record (refl (r := Silent) ended.2) (fun m e h => Trans.trans h (silent_log m e)) s file

/-- A source is run, or not because of what is wrong with its text. -/
theorem run_eq_or (s : Session) (source file : Text) :
    s.run source file =
        (.ofRun (Program.ofSource source).diagnostics ⟨0, [], none⟩, s.prepared source file) ∨
      s.run source file = (.ofRun (Program.ofSource source).diagnostics (s.execution source file).1,
        (s.prepared source file).after file (s.execution source file)) := by
  by_cases h : s.Withholds source
  · exact .inl (run_of_withholds h file)
  · exact .inr (run_of_not_withholds h file)

/-- The trace of a source that a session runs accounts for what came of it. -/
theorem accounts_run {s : Session} (hDepth : s.machine.scopes.depth = 0) (source file : Text) :
    let ended := s.clear.run source file
    Trace.Accounts (source.length + 1) ended.2.machine.traces ended.2.machine.outputs
      ended.1.failures := by
  intro ended
  have hPrepared := s.clear.silent_prepared source file
  have hTraces : (s.clear.prepared source file).machine.traces = [] := hPrepared.traces
  have hOutputs : (s.clear.prepared source file).machine.outputs = [] := hPrepared.outputs
  rcases s.clear.run_eq_or source file with hRan | hRan
  · rw [show ended = _ from hRan, SourceResult.failures_ofRun, hTraces, hOutputs]
    exact Trace.accounts_nil _
  · have hAccounts : Trace.Accounts (source.length + 1) (s.clear.execution source file).2.traces
        (s.clear.execution source file).2.outputs (s.clear.execution source file).1.diagnostics :=
      Machine.accounts_execute _ _ _ _ (Nat.succ_pos _) (Program.within_ofTokens source)
        (hPrepared.depth.trans hDepth) hTraces hOutputs
    have hAfter := (s.clear.prepared source file).silent_after file (s.clear.execution source file)
    rw [show ended = _ from hRan, SourceResult.failures_ofRun, hAfter.traces, hAfter.outputs,
      List.append_nil, Trace.printedLines_nil, List.append_nil]
    exact hAccounts

/-- What the trace of a source that a session runs is read as, whatever the stamps of its events. -/
theorem ofText?_run {s : Session} (hDepth : s.machine.scopes.depth = 0) {source file : Text}
    (hSource : source.length + 1 < 2 ^ 53) {trace : List (Stamp × Trace)}
    (hTrace : trace.map Prod.snd = (s.clear.run source file).2.machine.traces)
    (hElapsed : ∀ e ∈ trace, e.1.elapsedMs < 2 ^ 53) :
    TraceSummary.ofText? (Console.traceLines trace) =
      if ∀ e ∈ trace, (e.2.written e.1).length < Text.lineLimit then
        some ((trace.map fun e => e.2.readBack e.1).foldl TraceSummary.add .empty)
      else none := by
  have hWithin := (accounts_run hDepth source file).within
  rw [← hTrace] at hWithin
  exact TraceSummary.ofText?_traceLines (List.forall_mem_map.mp hWithin) hSource hElapsed

end Session

namespace Program

def printing (t : Text) : Text := Text.concat ["print \"", t, "\";"]

/-- The source spells the three tokens of a print statement. -/
theorem prints_printing {t : Text} (h : ∀ b ∈ t, b ≠ Text.quote ∧ b ≠ Text.newline) :
    Segment.Prints (printing t) [Token.read .printWord (Text.ofString "print") 0,
      Token.read .string (Text.quote :: (t ++ [Text.quote])) 0, Token.read .semicolon [59] 0] := by
  have hText : printing t =
      Text.ofString "print" ++ 32 :: (Text.quote :: (t ++ [Text.quote]) ++ [59]) := by
    have hBefore : Text.ofString "print \"" = Text.ofString "print" ++ [32, Text.quote] := by decide
    have hAfter : Text.ofString "\";" = [Text.quote, 59] := by decide
    simp [printing, Text.concat, hBefore, hAfter]
  have hWord := Segment.prints_lexeme (@Segment.lexeme_keyword "print" .printWord (by decide))
  have hEnd := (Segment.prints_lexeme (.string h)).append (Segment.begins_cons (by decide) [])
    (Segment.prints_nil.firm (b := 59) (k := .semicolon) (by decide))
  rw [hText]
  exact hWord.append (Segment.begins_cons (by decide) _) hEnd.blank

theorem derives_printing {keyword literal semicolon : Token} (hKeyword : keyword.kind = .printWord)
    (hLiteral : literal.kind = .string) (hSemicolon : semicolon.kind = .semicolon) :
    Stmt.Derives true .declarations [keyword, literal, semicolon]
      [.print keyword (.literal (some (literal.literal.getD .nil)) literal.line)] := by
  have hPrimary := Expr.Derives.literal (t := literal) (by rw [hLiteral]; decide)
  have hExpr := Expr.Derives.of_factor (.operand (.primary hPrimary))
  exact .cons (.statement (.print hKeyword hExpr hSemicolon)) .nil

/-- The source is read as one print statement. -/
theorem ofSource_printing {t : Text} (h : ∀ b ∈ t, b ≠ Text.quote ∧ b ≠ Text.newline) :
    (ofSource (printing t)).diagnostics = [] ∧ ∃ keyword line,
      (ofSource (printing t)).program = ⟨[.print keyword (.literal (some (.string t)) line)]⟩ := by
  obtain ⟨hScan, w, last, hTokens, hWords⟩ := Scan.ofSource_of_prints (prints_printing h)
  obtain ⟨keyword, w, rfl, hKeyword, hWords⟩ := List.map_eq_cons_iff.mp hWords
  obtain ⟨literal, w, rfl, hLiteral, hWords⟩ := List.map_eq_cons_iff.mp hWords
  obtain ⟨semicolon, w, rfl, hSemicolon, hWords⟩ := List.map_eq_cons_iff.mp hWords
  obtain rfl := List.map_eq_nil_iff.mp hWords
  have hValue : literal.literal = some (.string t) := by
    have hRead := congrArg Token.literal hLiteral
    simpa [Token.unlined, Token.read, Kind.literal] using hRead
  have hDerives := @derives_printing keyword literal semicolon (congrArg Token.kind hKeyword)
    (congrArg Token.kind hLiteral) (congrArg Token.kind hSemicolon)
  rw [hValue] at hDerives
  obtain ⟨hParse, hProgram⟩ :=
    (@ofTokens_eq_iff_attempts _ (Token.endOfInput last) rfl ⟨_⟩).mpr (attempts_of_derives hDerives)
  simp only [ofSource, hScan, hTokens, hParse, hProgram, List.append_nil, true_and]
  exact ⟨_, _, rfl⟩

end Program

namespace Machine

/-- The print statement completes and leaves an event that tells the text. -/
theorem execute_printing (runId : Text) (horizon : Nat) (keyword : Token) (t : Text) (line : Int)
    (m : Machine) :
    let ended := execute .ideal .unlimited runId horizon
      ⟨[.print keyword (.literal (some (.string t)) line)]⟩ m
    ended.1 = ⟨1, [], none⟩ ∧ .print keyword.line (.string t) ∈ ended.2.traces := by
  refine ⟨rfl, ?_⟩
  change _ ∈ (((((_ : Machine).record (.trace (.print keyword.line (.string t)))).record
    (.trace (.stmtEnd _))).record (.trace _)).record (.log _)).traces
  simp [Event.trace?]

end Machine

namespace Session

open Program (printing)

/-- A program that writes a long text runs to its end, and yet its trace is not read. -/
theorem run_printing {t : Text} (hBytes : ∀ b ∈ t, b < 128 ∧ b ≠ Text.quote ∧ b ≠ Text.newline)
    (hLong : Text.lineLimit ≤ t.length) (hSource : (printing t).length + 1 < 2 ^ 53) (file runId : Text)
    (horizon : Nat) :
    let s := Session.start .ideal ⟨.unlimited, true, runId, horizon⟩
    let ended := s.clear.run (printing t) file
    ended.1 = ⟨[], 0, 0, 1, none⟩ ∧
      ∀ trace : List (Stamp × Trace), trace.map Prod.snd = ended.2.machine.traces →
        (∀ e ∈ trace, e.1.elapsedMs < 2 ^ 53) →
        TraceSummary.ofText? (Console.traceLines trace) = none := by
  intro s ended
  obtain ⟨hRead, keyword, line, hProgram⟩ := Program.ofSource_printing fun b hb => (hBytes b hb).2
  let prepared := s.clear.prepared (printing t) file
  obtain ⟨hResult, hMem⟩ := Machine.execute_printing runId horizon keyword t line prepared.machine
  have hRan : ended = _ := run_eq rfl (printing t) file
  rw [execution, hProgram, hRead] at hRan
  have hPrint : .print keyword.line (.string t) ∈ ended.2.machine.traces := by
    rw [hRan, (prepared.silent_after file _).traces, List.append_nil]
    exact hMem
  constructor
  · rw [hRan]
    exact congrArg (SourceResult.ofRun []) hResult
  · intro trace hTrace hElapsed
    rw [ofText?_run rfl hSource hTrace hElapsed]
    refine if_neg fun hShort => ?_
    rw [← hTrace] at hPrint
    obtain ⟨⟨stamp, event⟩, hEvent, rfl⟩ := List.mem_map.mp hPrint
    have hWritten := Trace.length_le_written_print (fun b hb => (hBytes b hb).1) stamp keyword.line
    exact absurd (hShort _ hEvent) (Nat.not_lt.mpr (hLong.trans hWritten))

end Session
end Lox
