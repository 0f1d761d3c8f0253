import Lox.CommandLine
import Lox.Proofs.Execution.Outcome
import Lox.Proofs.Session.Pieces

/-! What came of a source tells what was reported of it. It lists what is wrong with the characters of
the source, then with its syntax, then with its run, and the exit status follows from it. -/
namespace Lox

namespace Machine

variable {run : Run} {ss : List Stmt} {m : Machine}

/-- A run that ends early has not completed every statement, and what it reports last is why it
ended. -/
theorem runAll_of_some {error : RunError} (h : (runAll run ss m).1.error = some error) :
    (runAll run ss m).1.executed < ss.length ∧
      error.diagnostics <:+ (runAll run ss m).1.diagnostics := by
  obtain ⟨before, s, later, rfl, hEnds⟩ := exists_endsAt h
  obtain ⟨hCount, -⟩ := runAll_of_none hEnds.reached
  rw [hEnds.result_eq later]
  simp only [RunResult.andThen, List.length_append, List.length_cons]
  exact ⟨by omega, List.suffix_append _ _⟩

end Machine

/-- What a run can come to. An exhausted budget is reported, and every statement has completed exactly
if nothing is reported and the run was not cut short. -/
structure RunResult.IsOf (r : RunResult) (p : Program) : Prop where
  exhausted : ∀ f, r.error = some (.budget f) → r.diagnostics ≠ []
  completed : r.executed = p.statements.length ↔ r.diagnostics = [] ∧ r.error = none

/-- Whatever comes of a run is one of the things that a run can come to. -/
theorem Machine.isOf_execute (host : Host) (budget : Budget) (runId : Text) (horizon : Nat) (p : Program)
    (m : Machine) : (execute host budget runId horizon p m).1.IsOf p := by
  rw [execute_eq_runAll, concluded]
  constructor
  case exhausted =>
    intro f hError hNone
    have hSuffix := (runAll_of_some hError).2
    rw [hNone, List.suffix_nil] at hSuffix
    cases hSuffix
  case completed =>
    cases hError : (runAll _ p.statements (m.begun runId p)).1.error with
    | none =>
        obtain ⟨hCount, -⟩ := runAll_of_none hError
        rw [← List.length_eq_zero_iff]
        simp only [and_true]
        omega
    | some error =>
        obtain ⟨hLess, -⟩ := runAll_of_some hError
        simp only [reduceCtorEq, and_false, iff_false]
        omega

/-- The run was cut short from outside: by an interrupt, because it came down, or because it was followed
no further. An exhausted budget is no such reason: it is reported like a fault. -/
def RunError.isFromOutside : RunError → Bool
  | .budget _ => false
  | .interruptedBefore .. | .interrupted _ | .crashed | .unfinished => true

namespace SourceResult

def cutShort (r : SourceResult) : Bool := r.error.any RunError.isFromOutside

/-- A number tells what came of a source, which is read as a program with some problems. -/
structure IsToldBy (r : SourceResult) (parse : Program.Parse) (code : Nat) : Prop where
  zero_iff : code = 0 ↔
    parse.diagnostics = [] ∧ r.executed = parse.program.statements.length
  of_ne_zero : code ≠ 0 → code =
    if r.cutShort then 70
    else if ∃ d ∈ r.diagnostics, d.code = .io then 74
    else if 0 < r.syntaxErrors then 65
    else 70

/-- A run that was cut short counts first, then failed output, then the status of the source. -/
theorem processStatus_eq (r : SourceResult) :
    r.processStatus =
      if r.cutShort then .failed
      else if ∃ d ∈ r.diagnostics, d.code = .io then .ioError
      else r.status := by
  rw [processStatus, cutShort]
  cases r.error with
  | none => simp
  | some e => cases e <;> simp [RunError.isFromOutside]

/-- The exit code in numbers. -/
theorem code_processStatus (r : SourceResult) :
    r.processStatus.code =
      if r.cutShort then 70
      else if ∃ d ∈ r.diagnostics, d.code = .io then 74
      else if 0 < r.syntaxErrors then 65
      else if 0 < r.runtimeErrors then 70
      else 0 := by
  rw [processStatus_eq, status]
  split_ifs <;> rfl

/-- A run is not cut short from outside if it ended or exhausted its budget. -/
theorem cutShort_ofRun_eq_false_iff {problems : List Diagnostic} {result : RunResult} :
    (ofRun problems result).cutShort = false ↔
      result.error = none ∨ ∃ f, result.error = some (.budget f) := by
  rw [cutShort, ofRun]
  cases result.error with
  | none => simp
  | some e => cases e <;> simp [RunError.isFromOutside]

variable {parse : Program.Parse} {result : RunResult}

/-- Every statement of a source without problems has completed exactly if nothing is reported and the
run was not cut short. -/
theorem executed_ofRun_iff (h : result.IsOf parse.program) (problems : List Diagnostic) :
    result.executed = parse.program.statements.length ↔
      (ofRun problems result).cutShort = false ∧ result.diagnostics = [] := by
  rw [h.completed, cutShort_ofRun_eq_false_iff, and_comm]
  constructor
  · rintro ⟨hError, hNone⟩
    exact ⟨.inl hError, hNone⟩
  · rintro ⟨hError | ⟨f, hError⟩, hNone⟩
    · exact ⟨hError, hNone⟩
    · exact absurd hNone (h.exhausted f hError)

/-- The process ends well exactly if nothing is reported and the run was not cut short. -/
theorem code_eq_zero_iff (problems : List Diagnostic) (result : RunResult) :
    (ofRun problems result).processStatus.code = 0 ↔
      problems = [] ∧ (ofRun problems result).cutShort = false ∧ result.diagnostics = [] := by
  rw [code_processStatus]
  split_ifs with hCut hRefused hSyntax hRuntime
  · simp [hCut]
  · obtain ⟨d, hMem, -⟩ := hRefused
    refine iff_of_false (by decide) ?_
    rintro ⟨rfl, -, hNone⟩
    simp [ofRun, hNone] at hMem
  · refine iff_of_false (by decide) ?_
    rintro ⟨rfl, -, -⟩
    exact Nat.lt_irrefl 0 hSyntax
  · refine iff_of_false (by decide) ?_
    rintro ⟨-, -, hNone⟩
    simp [ofRun, hNone] at hRuntime
  · simp only [ofRun, not_lt, Nat.le_zero, List.length_eq_zero_iff] at hSyntax hRuntime
    exact iff_of_true rfl ⟨hSyntax, Bool.eq_false_of_not_eq_true hCut, hRuntime⟩

/-- The exit status of a process tells what came of the source that it has run. -/
theorem isToldBy_processStatus (h : parse.diagnostics = [] → result.IsOf parse.program) :
    (ofRun parse.diagnostics result).IsToldBy parse
      (ofRun parse.diagnostics result).processStatus.code := by
  constructor
  case zero_iff =>
    rw [code_eq_zero_iff]
    exact and_congr_right fun hProblems => (executed_ofRun_iff (h hProblems) _).symm
  case of_ne_zero =>
    rw [code_processStatus]
    intro hNe
    split_ifs at hNe ⊢
    · rfl
    · rfl
    · rfl
    · rfl
    · exact hNe rfl

end SourceResult

namespace Session

variable (s : Session) (source file : Text)

def outcome : RunResult :=
  if s.Withholds source then ⟨0, [], none⟩ else (s.execution source file).1

/-- The result of a source is made of its problems and of what came of its statements. -/
theorem result_run : (s.run source file).1 =
    .ofRun (Program.ofSource source).diagnostics (s.outcome source file) := by
  rw [outcome]
  split_ifs with h
  · rw [run_of_withholds h]
  · rw [run_of_not_withholds h]

/-- A source without problems has been run. -/
theorem isOf_outcome (h : (Program.ofSource source).diagnostics = []) :
    (s.outcome source file).IsOf (Program.ofSource source).program := by
  rw [outcome, if_neg fun hWithholds => hWithholds.1 h]
  exact Machine.isOf_execute ..

/-- What is wrong with the text is reported before the source is run. -/
theorem reports_prepared : (s.prepared source file).machine.reports =
    s.machine.reports ++ (Program.ofSource source).diagnostics := by
  have hReported (ds : List Diagnostic) (s : Session) :
      (s.reportAll ds).machine.reports = s.machine.reports ++ ds := by
    induction ds generalizing s with
    | nil => exact (List.append_nil _).symm
    | cons d ds ih =>
        refine (ih (s.record (.report d))).trans ?_
        simp [record, Event.report?]
  simp [prepared, record, hReported, Event.report?]

theorem reports_after (ended : RunResult × Machine) :
    (s.after file ended).machine.reports = ended.2.reports :=
  after_of_record (P := fun m => m.reports = ended.2.reports) rfl (by simp [Event.report?]) s file

/-- A session reports the diagnostics of its result. -/
theorem reports_run : (s.run source file).2.machine.reports =
    s.machine.reports ++ (s.run source file).1.diagnostics := by
  by_cases h : s.Withholds source
  · rw [run_of_withholds h, reports_prepared, SourceResult.ofRun, List.append_nil]
  · rw [run_of_not_withholds h, reports_after, execution, Machine.reports_execute, reports_prepared,
      List.append_assoc]
    rfl

theorem progress_prepared : (s.prepared source file).machine.progress = s.machine.progress :=
  prepared_of_record (P := fun m => m.progress = s.machine.progress) rfl (fun _ _ h => h)
    (fun _ _ h => h) source file

/-- What a session has shown of a source agrees with what came of it. -/
structure Agrees (ran : SourceResult × Session) : Prop where
  diagnostics : ran.1.diagnostics = (Scan.ofSource source).diagnostics ++
    (Program.ofTokens (Scan.ofSource source).tokens).diagnostics ++ (s.outcome source file).diagnostics
  syntaxErrors : ran.1.syntaxErrors = (Scan.ofSource source).diagnostics.length +
    (Program.ofTokens (Scan.ofSource source).tokens).diagnostics.length
  runtimeErrors : ran.1.runtimeErrors = (s.outcome source file).diagnostics.length
  total : ran.1.syntaxErrors + ran.1.runtimeErrors = ran.1.diagnostics.length
  reported : ran.2.machine.reports = s.machine.reports ++ ran.1.diagnostics
  withheld : s.conduct.runOnParseError = false → 0 < ran.1.syntaxErrors →
    ran.2.machine.outputs = s.machine.outputs ∧ ran.2.machine.scopes = s.machine.scopes ∧
      ran.2.machine.progress = s.machine.progress

/-- What a session has shown of a source agrees with what came of it. -/
theorem agrees_run : s.Agrees source file (s.run source file) where
  diagnostics := by
    rw [result_run]
    rfl
  syntaxErrors := by
    rw [result_run]
    exact List.length_append
  runtimeErrors := by
    rw [result_run]
    rfl
  total := by
    rw [result_run]
    exact List.length_append.symm
  reported := s.reports_run source file
  withheld hStops hProblems := by
    rw [result_run] at hProblems
    have h : s.Withholds source := ⟨List.length_pos_iff.mp hProblems, hStops⟩
    have hPrepared := s.matches_prepared source file
    rw [run_of_withholds h]
    exact ⟨hPrepared.outputs.symm, hPrepared.scopes.symm, s.progress_prepared source file⟩

end Session
end Lox
