import Lox.Proofs.Execution.Quiet
import Lox.Proofs.Grammar.Joining
import Lox.Session

/-! Sources run one after the other, and run as one. A session that nothing disturbs goes the same way
whether a program is given to it in pieces or whole. -/
namespace Lox

namespace Rewriting

/-- Lines do not matter to what is computed. -/
theorem keepsMeaning_relined (f : Int → Int) : (relined f).KeepsMeaning :=
  ⟨fun _ => rfl, fun _ => rfl, fun _ _ => rfl⟩

theorem movesLines_relined (f : Int → Int) : (relined f).MovesLines :=
  ⟨fun _ => rfl, fun _ => rfl, fun _ _ => rfl⟩

/-- A fault on another line is reported on that line. -/
theorem reports_relined (f : Int → Int) :
    (relined f).Reports (fun _ => True) (Diagnostic.relined f) :=
  ⟨fun cause _ _ _ => by cases cause <;> rfl, fun cause _ _ => by cases cause <;> rfl⟩

end Rewriting

/-- Statements on other lines go as they do on their own, and their faults are on these lines. -/
theorem Machine.runAll_relined (f : Int → Int) (run : Run) (ss : List Stmt) (m : Machine) :
    (runAll run (ss.map (Stmt.rewrite (.relined f))) m).1 =
        (runAll run ss m).1.rewrite (.relined f) (Diagnostic.relined f) ∧
      Matches (runAll run ss m).2 (runAll run (ss.map (Stmt.rewrite (.relined f))) m).2 := by
  have hStart : Alike (Chain.Padded (List.replicate m.scopes.scopes.length true)) m m :=
    alike_replicate_iff.mpr ⟨⟨rfl, rfl, rfl, rfl⟩, rfl⟩
  have hHead : (List.replicate m.scopes.scopes.length true).head? = some true := rfl
  obtain ⟨hResult, hAlike⟩ := runFrom_rewrite (Rewriting.keepsMeaning_relined f)
    (Rewriting.movesLines_relined f) (Rewriting.reports_relined f) hHead
    (fun _ _ _ _ => trivial : ∀ s ∈ ss, ∀ t ∈ s.loopWords, True) run 0 [] hStart
  exact ⟨hResult, (alike_replicate_iff.mp hAlike).1.matches⟩

/-- Whether a run comes to an end has nothing to do with lines. -/
theorem RunResult.terminates_rewrite_iff (r : Rewriting) (report : Diagnostic → Diagnostic)
    (result : RunResult) : (result.rewrite r report).Terminates ↔ result.Terminates := by
  obtain ⟨executed, diagnostics, error⟩ := result
  cases error with
  | none => simp [rewrite, Terminates]
  | some error => cases error <;> simp [rewrite, Terminates, RunError.rewrite]

/-- A quiet run of some statements and then others, the latter on other lines, is a run of the former
and then one of the latter. -/
theorem Machine.runAll_append_relined {run : Run} (h : run.IsQuiet) (f : Int → Int)
    (ss ss' : List Stmt) (m : Machine) :
    let first := runAll run ss m
    let second := runAll run ss' first.2
    let whole := runAll run (ss ++ ss'.map (Stmt.rewrite (.relined f))) m
    (whole.1.Terminates ↔ first.1.Terminates ∧ second.1.Terminates) ∧
      (whole.1.Terminates → Matches second.2 whole.2 ∧
        whole.1 = first.1.andThen (second.1.rewrite (.relined f) (Diagnostic.relined f))) := by
  intro first second whole
  obtain ⟨hResult, hMatches⟩ := runAll_relined f run ss' first.2
  have hWhole : whole = followedBy first (runAll run (ss'.map (Stmt.rewrite (.relined f)))) :=
    runAll_append run ss _ m
  cases hError : first.1.error with
  | some error =>
      have hLost : ¬ first.1.Terminates := fun hEnds => by
        rw [error_of_isQuiet h hEnds] at hError
        cases hError
      rw [hWhole, followedBy_of_some hError]
      exact ⟨⟨fun hEnds => absurd hEnds hLost, fun hEnds => absurd hEnds.1 hLost⟩,
        fun hEnds => absurd hEnds hLost⟩
  | none =>
      have hFirst : first.1.Terminates := by simp [RunResult.Terminates, hError]
      rw [hWhole, followedBy_of_none hError, hResult]
      refine ⟨?_, fun _ => ⟨hMatches, rfl⟩⟩
      have hEnd := second.1.terminates_rewrite_iff (.relined f) (Diagnostic.relined f)
      exact hEnd.trans (and_iff_right hFirst).symm

namespace SourceResult

/-- The result of a source with some problems whose statements ran. -/
def ofRun (problems : List Diagnostic) (result : RunResult) : SourceResult :=
  ⟨problems ++ result.diagnostics, problems.length, result.diagnostics.length, result.executed,
    result.error⟩

def failures (r : SourceResult) : List Diagnostic := r.diagnostics.drop r.syntaxErrors

def Terminates (r : SourceResult) : Prop := r.error ≠ some .crashed ∧ r.error ≠ some .unfinished

@[simp] theorem failures_ofRun (problems : List Diagnostic) (result : RunResult) :
    (ofRun problems result).failures = result.diagnostics :=
  List.drop_left

end SourceResult

namespace Session

open Machine (Matches runAll runAll_matches runAll_append_relined)

/-- The output sink takes everything, nobody asks a run to stop and nothing limits it. -/
structure IsQuiet (s : Session) : Prop where
  accepts : ∀ attempts, s.host.refusal attempts = none
  goesOn : ∀ start now, s.host.interrupt s.conduct.budget.timeout start now = none
  unlimited : ¬ 0 < s.conduct.budget.maxIterations

theorem IsQuiet.congr {s s' : Session} (h : s.IsQuiet) (hHost : s'.host = s.host)
    (hConduct : s'.conduct = s.conduct) : s'.IsQuiet :=
  ⟨hHost ▸ h.accepts, hHost ▸ hConduct ▸ h.goesOn, hConduct ▸ h.unlimited⟩

/-- A run of the session that begins when things have come so far. -/
def runAt (s : Session) (start : Progress) : Run :=
  ⟨s.host, s.conduct.budget, s.conduct.runId, s.conduct.horizon, start⟩

/-- The runs of a quiet session are quiet. -/
theorem IsQuiet.isQuiet_runAt {s : Session} (h : s.IsQuiet) (start : Progress) :
    (s.runAt start).IsQuiet :=
  ⟨h.accepts, h.goesOn start, h.unlimited⟩

def prepared (s : Session) (source file : Text) : Session :=
  let parse := Program.ofSource source
  (s.reportAll parse.diagnostics).record (.log (.parsed file (Scan.ofSource source).tokens.length
    parse.program.statements.length parse.diagnostics.length))

def after (s : Session) (file : Text) (ended : RunResult × Machine) : Session :=
  match ended.1.error with
  | none | some .crashed => { s with machine := ended.2 }
  | some e => ({ s with machine := ended.2 } : Session).record (.log (.runStopped file e.message))

/-- What a session does after a run is seen in its events only. -/
theorem matches_after (s : Session) (file : Text) (ended : RunResult × Machine) :
    Matches ended.2 (s.after file ended).machine ∧ (s.after file ended).host = s.host ∧
      (s.after file ended).conduct = s.conduct := by
  rw [after]
  split
  · exact ⟨.refl _, rfl, rfl⟩
  · exact ⟨.refl _, rfl, rfl⟩
  · exact ⟨(Matches.refl _).recordRight rfl, rfl, rfl⟩

/-- What holds at the end of a run, and still does when something is logged, holds once the session has
logged how the run ended. -/
theorem after_of_record {P : Machine → Prop} {ended : RunResult × Machine} (h : P ended.2)
    (hLog : ∀ m e, P m → P (m.record (.log e))) (s : Session) (file : Text) :
    P (s.after file ended).machine := by
  rw [after]
  split
  · exact h
  · exact h
  · exact hLog _ _ h

/-- Reports are events, and nothing else. -/
theorem reportAll_eq (s : Session) (ds : List Diagnostic) :
    s.reportAll ds = { s with machine := ds.foldl (fun m d => m.record (.report d)) s.machine } := by
  induction ds generalizing s with
  | nil => rfl
  | cons d ds ih => exact ih (s.record (.report d))

/-- What holds of a session, and still does when it reports or logs something, holds once it has reported
what is wrong with a source. -/
theorem prepared_of_record {P : Machine → Prop} {s : Session} (h : P s.machine)
    (hReport : ∀ m d, P m → P (m.record (.report d))) (hLog : ∀ m e, P m → P (m.record (.log e)))
    (source file : Text) : P (s.prepared source file).machine := by
  have hReported (ds : List Diagnostic) (m : Machine) (hm : P m) :
      P (ds.foldl (fun m d => m.record (.report d)) m) := by
    induction ds generalizing m with
    | nil => exact hm
    | cons d ds ih => exact ih _ (hReport m d hm)
  rw [prepared, reportAll_eq]
  exact hLog _ _ (hReported _ _ h)

/-- What a session does before a run is seen in its events only. -/
theorem matches_prepared (s : Session) (source file : Text) :
    Matches s.machine (s.prepared source file).machine :=
  prepared_of_record (Matches.refl s.machine) (fun _ _ h => h.recordRight rfl)
    (fun _ _ h => h.recordRight rfl) source file

def execution (s : Session) (source file : Text) : RunResult × Machine :=
  (s.prepared source file).machine.execute s.host s.conduct.budget s.conduct.runId s.conduct.horizon
    (Program.ofSource source).program

/-- Something is wrong with the text of a source, and the session is set not to run it then. -/
def Withholds (s : Session) (source : Text) : Prop :=
  (Program.ofSource source).diagnostics ≠ [] ∧ s.conduct.runOnParseError = false

instance (s : Session) (source : Text) : Decidable (s.Withholds source) :=
  inferInstanceAs (Decidable (_ ∧ _))

theorem host_prepared (s : Session) (source file : Text) : (s.prepared source file).host = s.host := by
  rw [prepared, reportAll_eq]
  rfl

theorem conduct_prepared (s : Session) (source file : Text) :
    (s.prepared source file).conduct = s.conduct := by
  rw [prepared, reportAll_eq]
  rfl

/-- The test by which a session decides. -/
theorem withholds_iff (s : Session) (source file : Text) :
    (!(Program.ofSource source).diagnostics.isEmpty &&
      !(s.prepared source file).conduct.runOnParseError) = true ↔ s.Withholds source := by
  simp [Withholds, conduct_prepared]

/-- A source that is withheld is reported on, and that is all. -/
theorem run_of_withholds {s : Session} {source : Text} (h : s.Withholds source) (file : Text) :
    s.run source file =
      (.ofRun (Program.ofSource source).diagnostics ⟨0, [], none⟩, s.prepared source file) := by
  refine (if_pos ((s.withholds_iff source file).mpr h)).trans ?_
  simp only [SourceResult.ofRun, List.append_nil]
  rfl

/-- A source that is not withheld is reported on and then run. -/
theorem run_of_not_withholds {s : Session} {source : Text} (h : ¬ s.Withholds source) (file : Text) :
    s.run source file = (.ofRun (Program.ofSource source).diagnostics (s.execution source file).1,
      (s.prepared source file).after file (s.execution source file)) := by
  rw [execution, ← s.conduct_prepared source file, ← s.host_prepared source file]
  exact if_neg (mt (s.withholds_iff source file).mp h)

/-- A source is run whatever is wrong with it, if the session is set to do so. -/
theorem run_eq {s : Session} (hRuns : s.conduct.runOnParseError = true) (source file : Text) :
    s.run source file = (.ofRun (Program.ofSource source).diagnostics (s.execution source file).1,
      (s.prepared source file).after file (s.execution source file)) := by
  refine run_of_not_withholds (fun h => ?_) file
  rw [h.2] at hRuns
  cases hRuns

theorem matches_begun (m : Machine) (runId : Text) (p : Program) : Matches m (m.begun runId p) :=
  ((Matches.mk rfl rfl : Matches m { m with iterations := 0 }).recordRight rfl).recordRight rfl

theorem matches_concluded (runId : Text) (ended : RunResult × Machine) :
    Matches ended.2 (Machine.concluded runId ended).2 :=
  ((Matches.refl ended.2).recordRight rfl).recordRight rfl

/-- What a quiet session makes of a source: it runs the statements that could be read in the scopes
that it has. -/
theorem run_of_isQuiet {s : Session} (hQuiet : s.IsQuiet) (hRuns : s.conduct.runOnParseError = true)
    (source file : Text) {m : Machine} (hMatches : Matches m s.machine) (start : Progress) :
    let ran := runAll (s.runAt start) (Program.ofSource source).program.statements m
    (s.run source file).1 = .ofRun (Program.ofSource source).diagnostics ran.1 ∧
      Matches ran.2 (s.run source file).2.machine ∧
      (s.run source file).2.host = s.host ∧ (s.run source file).2.conduct = s.conduct := by
  intro ran
  rw [run_eq hRuns, execution, Machine.execute_eq_runAll]
  have hBegun := (hMatches.trans (matches_prepared s source file)).trans
    (matches_begun _ s.conduct.runId (Program.ofSource source).program)
  obtain ⟨hResult, hRan⟩ := runAll_matches (hQuiet.isQuiet_runAt start)
    (hQuiet.isQuiet_runAt (s.prepared source file).machine.progress) rfl
    (Program.ofSource source).program.statements hBegun
  obtain ⟨hMachine, hHost, hConduct⟩ := matches_after (s.prepared source file) file
    (Machine.concluded s.conduct.runId (runAll (s.runAt (s.prepared source file).machine.progress)
      (Program.ofSource source).program.statements
      ((s.prepared source file).machine.begun s.conduct.runId (Program.ofSource source).program)))
  exact ⟨congrArg (SourceResult.ofRun _) hResult.symm,
    (hRan.trans (matches_concluded s.conduct.runId _)).trans hMachine,
    hHost.trans (s.host_prepared source file), hConduct.trans (s.conduct_prepared source file)⟩

/-- What came of a source is what came of two pieces of it, the second one of which begins so many
lines further down. -/
structure Joins (lines : Int) (first second whole : SourceResult × Session) : Prop where
  outputs : whole.2.machine.outputs = second.2.machine.outputs
  scopes : whole.2.machine.scopes = second.2.machine.scopes
  executed : whole.1.executed = first.1.executed + second.1.executed
  syntaxErrors : whole.1.syntaxErrors = first.1.syntaxErrors + second.1.syntaxErrors
  runtimeErrors : whole.1.runtimeErrors = first.1.runtimeErrors + second.1.runtimeErrors
  failures : whole.1.failures =
    first.1.failures ++ second.1.failures.map (Diagnostic.relined (· + lines))

/-- A run of the statements of two pieces, the second ones further down, joins the runs of both. -/
theorem joins_of_andThen {lines : Int} {first second whole : SourceResult × Session}
    {problems : List Diagnostic} {result result' : RunResult}
    (hFirst : first.1 = .ofRun [] result) (hSecond : second.1 = .ofRun problems result')
    (hWhole : whole.1 = .ofRun (problems.map (Diagnostic.relined (· + lines)))
      (result.andThen (result'.rewrite (.relined (· + lines)) (Diagnostic.relined (· + lines)))))
    (hMatches : Matches whole.2.machine second.2.machine) : Joins lines first second whole := by
  constructor
  case outputs => exact hMatches.outputs
  case scopes => exact hMatches.scopes
  all_goals rw [hFirst, hSecond, hWhole]
  case executed => rfl
  case syntaxErrors => simp [SourceResult.ofRun]
  case runtimeErrors => simp [SourceResult.ofRun, RunResult.andThen, RunResult.rewrite]
  case failures =>
    simp only [SourceResult.failures_ofRun]
    rfl

/-- A quiet session goes the same way whether a program is given to it in pieces or whole. Nothing may
be wrong with the text of the first piece, and the second one must not begin with an `else`. The pieces
come to their end exactly if the whole does. -/
theorem run_newline {s : Session} (hQuiet : s.IsQuiet) (hRuns : s.conduct.runOnParseError = true)
    {a b : Text} (hClean : (Program.ofSource a).diagnostics = [])
    (hElse : Reading.ahead (Scan.ofSource b).tokens ≠ .elseWord) (fileA fileB file : Text) :
    let first := s.run a fileA
    let second := first.2.run b fileB
    let whole := s.run (a ++ Text.newline :: b) file
    (whole.1.Terminates ↔ first.1.Terminates ∧ second.1.Terminates) ∧
      (whole.1.Terminates → Joins (1 + a.count Text.newline) first second whole) := by
  intro first second whole
  let start := s.machine.progress
  obtain ⟨hFirst, hMiddle, hHost, hConduct⟩ :=
    run_of_isQuiet hQuiet hRuns a fileA (.refl s.machine) start
  have hRun : first.2.runAt start = s.runAt start := by rw [runAt, runAt, hHost, hConduct]
  obtain ⟨hSecond, hLast, _, _⟩ :=
    run_of_isQuiet (hQuiet.congr hHost hConduct) (hConduct ▸ hRuns) b fileB hMiddle start
  rw [hRun] at hSecond hLast
  obtain ⟨hWhole, hFinal, _, _⟩ :=
    run_of_isQuiet hQuiet hRuns (a ++ Text.newline :: b) file (.refl s.machine) start
  obtain ⟨hStatements, hProblems⟩ := Program.ofSource_newline hClean hElse
  rw [hStatements] at hWhole hFinal
  obtain ⟨hTerminates, hResult⟩ := runAll_append_relined (hQuiet.isQuiet_runAt start)
    (· + Scan.lastLine a) (Program.ofSource a).program.statements
    (Program.ofSource b).program.statements s.machine
  have hTerminates : whole.1.Terminates ↔ first.1.Terminates ∧ second.1.Terminates := by
    rw [hFirst, hSecond, hWhole]
    exact hTerminates
  refine ⟨hTerminates, fun hEnds => ?_⟩
  rw [hWhole] at hEnds
  obtain ⟨hMatches, hResult⟩ := hResult hEnds
  rw [hResult, hProblems] at hWhole
  rw [hClean] at hFirst
  exact joins_of_andThen hFirst hSecond hWhole ((hMatches.trans hFinal).symm.trans hLast)

/-- The first piece ends with an `if`, and the second one begins with something that cannot be read. The
variable that the first piece declares is read in the second, and both have a statement that fails. -/
theorem run_newline_afterIf :
    let s := Session.start .ideal ⟨.unlimited, true, [], 2⟩
    let a : Text := "var a = true;\nif (a) b;"
    let b : Text := "); print a; while (a) a = nil; b;"
    let first := s.run a []
    let second := first.2.run b []
    let whole := s.run (a ++ Text.newline :: b) []
    s.IsQuiet ∧ s.conduct.runOnParseError = true ∧ (Program.ofSource a).diagnostics = [] ∧
      Reading.ahead (Scan.ofSource b).tokens ≠ .elseWord ∧ whole.1.Terminates ∧
      Joins 2 first second whole ∧
      whole.1.failures.map Diagnostic.line = [2, 3] := by
  intro s a b first second whole
  have hQuiet : s.IsQuiet := ⟨fun _ => rfl, fun _ _ => rfl, by decide⟩
  have hClean : (Program.ofSource a).diagnostics = [] := by decide +kernel
  have hElse : Reading.ahead (Scan.ofSource b).tokens ≠ .elseWord := by decide +kernel
  have hTerminates : whole.1.Terminates := by
    rw [SourceResult.Terminates]
    decide +kernel
  exact ⟨hQuiet, rfl, hClean, hElse, hTerminates,
    (run_newline hQuiet rfl hClean hElse [] [] []).2 hTerminates, by decide +kernel⟩

end Session
end Lox
