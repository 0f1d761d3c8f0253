import Lox.Console.Memory
import Lox.Proofs.Session.Reporting

/-! What a process shows of a source that it runs, and how it ends. Each diagnostic of the result is
rendered on the standard error, and the exit status tells what came of the source. -/
namespace Lox

/-- What an event writes to the standard error of a process whose clock stands still. -/
def Event.errorLine? (settings : Settings) : Event → Option Text
  | .report d => some (d.render settings.format ++ [Text.newline])
  | .log e => if settings.level.rank ≤ e.level.rank then some (e.line "T") else none
  | .output _ | .trace _ => none

/-- If no entry of the log matters enough, only the diagnostics are written. -/
theorem Event.filterMap_errorLine?_eq {settings : Settings} {events : List Event}
    (h : ∀ e, .log e ∈ events → e.level.rank < settings.level.rank) :
    events.filterMap (errorLine? settings) =
      (events.filterMap report?).map fun d => d.render settings.format ++ [Text.newline] := by
  induction events with
  | nil => rfl
  | cons e events ih =>
      have hRest := ih fun e he => h e (List.mem_cons_of_mem _ he)
      cases e with
      | report d => exact congrArg (_ :: ·) hRest
      | log e =>
          have hLevel := h e List.mem_cons_self
          rw [List.filterMap_cons, errorLine?, if_neg (Nat.not_le.mpr hLevel)]
          exact hRest
      | output text => exact hRest
      | trace t => exact hRest

def SourceResult.complaints (r : SourceResult) : List Text :=
  (r.error.bind RunError.complaint).toList.map (· ++ [Text.newline])

/-- The session in a process, which has written so much and follows loops so far. -/
def Session.within (s : Session) (host : Host) (w : Memory) : Session where
  host := host
  conduct := { s.conduct with horizon := w.horizon }
  machine := { s.machine with progress := { s.machine.progress with writes := w.output.length } }

namespace Memory

/-- The services of a process in memory whose runs have whatever surroundings. -/
def consoleIn (host : Memory → Host) : Console (StateM Memory) :=
  { console with run := fun session source file => do
      let w ← get
      return (session.within (host w) w).run source file }

/-- In the surroundings of its own process this is the console in memory itself. -/
theorem consoleIn_host : consoleIn Memory.host = console := rfl

def warned (w : Memory) (lines : List Text) : Memory :=
  { w with errors := lines.reverse ++ w.errors }

def shown (settings : Settings) (w : Memory) (e : Event) : Memory :=
  (e.output?.elim w w.print).warned (e.errorLine? settings).toList

variable (host : Memory → Host) (w : Memory)

/-- An entry of the log is shown like any other event. -/
theorem log_eq (settings : Settings) (e : LogEntry) :
    (consoleIn host).log settings e w = ((), w.shown settings (.log e)) := by
  rw [Console.log, shown, Event.errorLine?]
  split_ifs <;> rfl

/-- The events of a run are shown one after the other. -/
theorem showEvents_eq (settings : Settings) (events : List Event) :
    (consoleIn host).showEvents settings events w = ((), events.foldl (shown settings) w) := by
  induction events generalizing w with
  | nil => rfl
  | cons e events ih =>
      have hFirst : (consoleIn host).showEvents settings (e :: events) w =
          (consoleIn host).showEvents settings events (w.shown settings e) := by
        cases e with
        | log e =>
            change (consoleIn host).showEvents settings events ((consoleIn host).log settings e w).2 = _
            rw [log_eq]
        | _ => rfl
      rw [hFirst, ih, List.foldl_cons]

@[simp] theorem errors_print (text : Text) : (w.print text).errors = w.errors := by
  rw [print]
  split <;> rfl

/-- The standard error has the lines of the events, the last one first. -/
theorem errors_foldl_shown (settings : Settings) (events : List Event) :
    (events.foldl (shown settings) w).errors =
      (events.filterMap (Event.errorLine? settings)).reverse ++ w.errors := by
  induction events generalizing w with
  | nil => rfl
  | cons e events ih =>
      have hFirst : (w.shown settings e).errors = (e.errorLine? settings).toList.reverse ++ w.errors := by
        cases e with
        | output text => exact w.errors_print text
        | _ => rfl
      rw [List.foldl_cons, ih, hFirst, List.filterMap_cons]
      cases e.errorLine? settings <;> simp

/-- Only the output of a run is written to the standard output. -/
theorem output_foldl_shown (settings : Settings) {events : List Event}
    (h : events.filterMap Event.output? = []) : (events.foldl (shown settings) w).output = w.output := by
  induction events generalizing w with
  | nil => rfl
  | cons e events ih =>
      rw [List.filterMap_eq_nil_iff, List.forall_mem_cons, ← List.filterMap_eq_nil_iff] at h
      rw [List.foldl_cons, ih _ h.2, shown, h.1]
      rfl

variable (setup : Setup) (session : Session) (source file : Text)

/-- What a process does to run a source and to show what came of it. -/
theorem runShown_eq :
    let ran := (session.clear.within (host w) w).run source file
    (consoleIn host).runShown setup session source file w =
      (ran, (ran.2.events.foldl (shown setup.settings) w).warned ran.1.complaints) := by
  intro ran
  have hRun : (consoleIn host).run session.clear source file w = (ran, w) := rfl
  rw [SourceResult.complaints]
  simp only [Console.runShown, bind, StateT.bind, hRun, showEvents_eq]
  cases ran.1.error.bind RunError.complaint with
  | none => rfl
  | some complaint => rfl

/-- What a process shows of a source that it has run in a session, from one state to another. -/
structure Shows (ran : SourceResult × Session) (w' : Memory) : Prop where
  isRun : ran = (session.clear.within (host w) w).run source file
  agrees : (session.clear.within (host w) w).Agrees source file ran
  /-- The diagnostics that are rendered are those of the result. -/
  reported : ran.2.events.filterMap Event.report? = ran.1.diagnostics
  errors : w'.errors = (ran.2.events.filterMap (Event.errorLine? setup.settings) ++
    ran.1.complaints).reverse ++ w.errors
  /-- Nothing stands between them if no entry of the log matters enough. -/
  unlogged : (∀ e, .log e ∈ ran.2.events → e.level.rank < setup.settings.level.rank) →
    w'.errors = (ran.1.diagnostics.map (fun d => d.render setup.settings.format ++ [Text.newline]) ++
      ran.1.complaints).reverse ++ w.errors
  /-- What was not run has written nothing and changed no variable. -/
  withheld : session.conduct.runOnParseError = false → 0 < ran.1.syntaxErrors →
    w'.output = w.output ∧ ran.2.machine.scopes = session.machine.scopes

/-- The command that runs a source shows what came of it. -/
theorem shows_runShown :
    let shown := (consoleIn host).runShown setup session source file w
    Shows host w setup session source file shown.1 shown.2 := by
  intro shown
  let ran := (session.clear.within (host w) w).run source file
  have hShown : shown = (ran, _) := runShown_eq host w setup session source file
  have hAgrees : (session.clear.within (host w) w).Agrees source file ran :=
    Session.agrees_run _ source file
  have hReported : ran.2.events.filterMap Event.report? = ran.1.diagnostics := hAgrees.reported
  have hErrors : shown.2.errors = (ran.2.events.filterMap (Event.errorLine? setup.settings) ++
      ran.1.complaints).reverse ++ w.errors := by
    rw [hShown]
    simp [ran, warned, errors_foldl_shown]
  have hRan : shown.1 = ran := by rw [hShown]
  rw [hRan]
  constructor
  case isRun => rfl
  case agrees => exact hAgrees
  case reported => exact hReported
  case errors => exact hErrors
  case unlogged =>
    intro hQuiet
    rw [hErrors, Event.filterMap_errorLine?_eq hQuiet, hReported]
  case withheld =>
    intro hStops hProblems
    obtain ⟨hOutputs, hScopes, -⟩ := hAgrees.withheld hStops hProblems
    rw [hShown]
    exact ⟨output_foldl_shown w setup.settings hOutputs, hScopes⟩

/-- The text of the source with a name and what it is called, if it can be read. -/
def source? (w : Memory) (name : Text) : Option (Text × Text) :=
  if name = "-" then
    if w.trouble.isNone then some (w.input, "<stdin>") else none
  else (w.files.read w.directory name).toOption.map fun source => (source, name)

def taken (w : Memory) (name : Text) : Memory := if name = "-" then { w with input := [] } else w

/-- The process once there is an empty file for the trace, if one is asked for. -/
def traced (w : Memory) (target : Text) : Except FileError Memory :=
  if target = [] then .ok w
  else (w.files.write w.directory target []).map fun files => { w with files }

variable {host w source file}

/-- The standard input can be read once. -/
theorem input_of_isNone (h : w.trouble.isNone) :
    (consoleIn host).input w = (.ok w.input, { w with input := [] }) := by
  obtain ⟨files, directory, home, input, trouble⟩ := w
  cases trouble with
  | none => rfl
  | some reason => cases h

/-- A source that can be read is handed on with what it is called. -/
theorem withSource_of_source? {name : Text} (h : w.source? name = some (source, file))
    (next : (source file : Text) → StateM Memory ExitStatus) :
    (consoleIn host).withSource name next w = next source file (w.taken name) := by
  rw [source?] at h
  rw [Console.withSource, taken]
  split_ifs at h ⊢ with hName hTrouble
  · cases h
    simp only [bind, StateT.bind, input_of_isNone hTrouble]
  · cases hFile : w.files.read w.directory name with
    | error e => simp [hFile, Except.toOption] at h
    | ok text =>
        have hRead : (consoleIn host).read name w = (.ok text, w) := Prod.ext hFile rfl
        rw [hFile] at h
        cases h
        simp only [bind, StateT.bind, hRead]

theorem write_of_error {target content : Text} {e : FileError}
    (h : w.files.write w.directory target content = .error e) :
    (consoleIn host).write target content w = (.error e, w) := by
  simp only [consoleIn, console, bind, StateT.bind, get, getThe, MonadStateOf.get, StateT.get, pure, h]
  rfl

theorem write_of_ok {target content : Text} {files : Files}
    (h : w.files.write w.directory target content = .ok files) :
    (consoleIn host).write target content w = (.ok (), { w with files }) := by
  simp only [consoleIn, console, bind, StateT.bind, get, getThe, MonadStateOf.get, StateT.get, pure, h]
  rfl

/-- Writing a file changes nothing but the files. -/
theorem exists_files_write (host : Memory → Host) (w : Memory) (target content : Text) :
    ∃ files, ((consoleIn host).write target content w).2 = { w with files } := by
  cases hWrite : w.files.write w.directory target content with
  | error e => exact ⟨w.files, by rw [write_of_error hWrite]⟩
  | ok files => exact ⟨files, by rw [write_of_ok hWrite]⟩

/-- Nothing but a target that cannot be written keeps the trace from its file. -/
theorem write_of_traced_error {target : Text} {e : FileError} (h : w.traced target = .error e) :
    target ≠ [] ∧ w.files.write w.directory target [] = .error e := by
  rw [traced] at h
  split_ifs at h with hTarget
  cases hWrite : w.files.write w.directory target [] with
  | error e' =>
      rw [hWrite] at h
      cases h
      exact ⟨hTarget, rfl⟩
  | ok files =>
      rw [hWrite] at h
      cases h

theorem write_of_traced_ok {target : Text} {begun : Memory} (h : w.traced target = .ok begun) :
    target = [] ∧ begun = w ∨
      target ≠ [] ∧ ∃ files, w.files.write w.directory target [] = .ok files ∧ begun = { w with files } := by
  rw [traced] at h
  split_ifs at h with hTarget
  · cases h
    exact .inl ⟨hTarget, rfl⟩
  · cases hWrite : w.files.write w.directory target [] with
    | error e =>
        rw [hWrite] at h
        cases h
    | ok files =>
        rw [hWrite] at h
        cases h
        exact .inr ⟨hTarget, files, rfl, rfl⟩

theorem moment_eq : (consoleIn host).moment w = (⟨0, "T", "T"⟩, w) := rfl

/-- The events of a trace get their stamps. -/
theorem exists_stamped (runId : Text) (start : Moment) (ts : List Trace) :
    ∃ trace, (consoleIn host).stamped runId start ts w = (trace, w) ∧ trace.map Prod.snd = ts := by
  induction ts with
  | nil => exact ⟨[], rfl, rfl⟩
  | cons t ts ih =>
      obtain ⟨trace, hStamped, hEvents⟩ := ih
      rw [Console.stamped, List.mapM_cons, ← Console.stamped]
      simp only [bind, StateT.bind, moment_eq, pure, StateT.pure, hStamped]
      exact ⟨_, rfl, congrArg (t :: ·) hEvents⟩

/-- After a run its trace is left in a file, and nothing else changes. -/
theorem exists_files_traced (target : Text) (start : Moment) (ran : SourceResult × Session) :
    ∃ files, (do
      let trace ← (consoleIn host).stamped ran.2.conduct.runId start (ran.2.events.filterMap Event.trace?)
      let _ ← (consoleIn host).write target (Console.traceLines trace)
      pure ran.1.processStatus : StateM Memory ExitStatus) w = (ran.1.processStatus, { w with files }) := by
  obtain ⟨trace, hStamped, -⟩ := @exists_stamped host w ran.2.conduct.runId start
    (ran.2.events.filterMap Event.trace?)
  obtain ⟨files, hFiles⟩ := exists_files_write host w target (Console.traceLines trace)
  simp only [bind, StateT.bind, hStamped]
  exact ⟨files, Prod.ext rfl hFiles⟩

variable {setup : Setup} {path : Text}

/-- Without a file for the trace that is asked for nothing is run. -/
theorem runCommand_of_traced_error (hSource : w.source? path = some (source, file)) {e : FileError}
    (hTrace : (w.taken path).traced setup.options.tracePath = .error e) :
    (consoleIn host).runCommand setup path w = (.ioError, (w.taken path).warned
      [Text.concat ["error: cannot create trace file: ", e.onWrite setup.options.tracePath] ++
        [Text.newline]]) := by
  obtain ⟨hTarget, hWrite⟩ := write_of_traced_error hTrace
  rw [Console.runCommand, withSource_of_source? hSource]
  simp only [bind, StateT.bind, moment_eq, if_neg hTarget, write_of_error hWrite]
  rfl

/-- Otherwise the source is run in a new session, and its trace is left in a file. -/
theorem runCommand_of_traced_ok (hSource : w.source? path = some (source, file)) {begun : Memory}
    (hTrace : (w.taken path).traced setup.options.tracePath = .ok begun) :
    let shown := (consoleIn host).runShown setup (setup.session "run-0") source file begun
    ∃ files, (consoleIn host).runCommand setup path w =
      (shown.1.1.processStatus, { shown.2 with files }) := by
  intro shown
  rw [Console.runCommand, withSource_of_source? hSource]
  obtain ⟨hTarget, rfl⟩ | ⟨hTarget, files, hWrite, rfl⟩ := write_of_traced_ok hTrace
  · simp only [bind, StateT.bind, moment_eq, if_pos hTarget]
    exact ⟨shown.2.files, rfl⟩
  · simp only [bind, StateT.bind, moment_eq, if_neg hTarget, write_of_ok hWrite]
    exact exists_files_traced setup.options.tracePath ⟨0, "T", "T"⟩ shown.1

/-- What came of a source, what a process shows of it and how the process ends agree, in whatever
surroundings the source is run and whatever was run before. Each diagnostic is rendered once on the
standard error, in the order of the result, and a source with problems that is not to be run writes
nothing. Once a source has been read, the exit status of the command that runs it tells what came of
it, unless a trace is asked for and there can be no file for it: then nothing is run. -/
theorem runCommand_tells (host : Memory → Host) (setup : Setup) (w : Memory) :
    (∀ session source file,
      let shown := (consoleIn host).runShown setup session source file w
      Shows host w setup session source file shown.1 shown.2) ∧
    ∀ path source file, w.source? path = some (source, file) →
      let ended := (consoleIn host).runCommand setup path w
      match (w.taken path).traced setup.options.tracePath with
      | .error e => ended = (.ioError, (w.taken path).warned
          [Text.concat ["error: cannot create trace file: ", e.onWrite setup.options.tracePath] ++
            [Text.newline]])
      | .ok begun => ∃ ran, Shows host begun setup (setup.session "run-0") source file ran ended.2 ∧
          ran.1.IsToldBy (Program.ofSource source) ended.1.code := by
  refine ⟨shows_runShown host w setup, fun path source file hSource => ?_⟩
  intro ended
  cases hTrace : (w.taken path).traced setup.options.tracePath with
  | error e => exact runCommand_of_traced_error hSource hTrace
  | ok begun =>
      have hShows := shows_runShown host begun setup (setup.session "run-0") source file
      have hRan : ∃ files, ended = _ := runCommand_of_traced_ok hSource hTrace
      obtain ⟨files, hEnded⟩ := hRan
      rw [hEnded]
      refine ⟨_, ⟨hShows.isRun, hShows.agrees, hShows.reported, hShows.errors, hShows.unlogged,
        hShows.withheld⟩, ?_⟩
      rw [hShows.isRun, Session.result_run]
      exact SourceResult.isToldBy_processStatus (Session.isOf_outcome _ source file)

/-- A source with a lexical error is not run, and the status tells so; if it is run nevertheless, the
standard output refuses what it prints, and that counts more. -/
theorem runCommand_tells_refused :
    let source : Text := "@ print true;"
    let w : Memory := ⟨⟨[([Text.ofString "a"], .file source)]⟩, [], none, [], none,
      fun _ => some "disk full", ⟨0, 0⟩, 1, [], []⟩
    let withheld : Setup := ⟨.none, { Settings.default with runOnParseError := false }, []⟩
    let refused : Setup := ⟨.none, Settings.default, []⟩
    let ended := console.runCommand withheld "a" w
    let ended' := console.runCommand refused "a" w
    w.source? "a" = some (source, Text.ofString "a") ∧ ended.1.code = 65 ∧ ended'.1.code = 74 ∧
      (∃ ran, Shows Memory.host w withheld (withheld.session "run-0") source "a" ran ended.2 ∧
        ran.1.IsToldBy (Program.ofSource source) ended.1.code) ∧
      ∃ ran, Shows Memory.host w refused (refused.session "run-0") source "a" ran ended'.2 ∧
        ran.1.IsToldBy (Program.ofSource source) ended'.1.code := by
  intro source w withheld refused ended ended'
  have hSource : w.source? "a" = some (source, Text.ofString "a") := by decide +kernel
  exact ⟨hSource, by decide +kernel, by decide +kernel,
    (runCommand_tells Memory.host withheld w).2 "a" source "a" hSource,
    (runCommand_tells Memory.host refused w).2 "a" source "a" hSource⟩

/-- There is nothing wrong with an empty source, and yet the process does not end well if the trace is
to be left where a folder is. -/
theorem runCommand_onto_folder :
    let w : Memory := ⟨⟨[([Text.ofString "a"], .file []), ([Text.ofString "d"], .folder)]⟩, [], none, [],
      none, fun _ => none, ⟨0, 0⟩, 1, [], []⟩
    let setup : Setup := ⟨⟨[], false, "d"⟩, Settings.default, []⟩
    let ended := console.runCommand setup "a" w
    let ran := ((setup.session "run-0").clear.within w.host w).run [] "a"
    w.source? "a" = some ([], Text.ofString "a") ∧ ran.1.diagnostics = [] ∧ ran.1.executed = 0 ∧
      (Program.ofSource []).diagnostics = [] ∧ (Program.ofSource []).program.statements.length = 0 ∧
      ended.1.code = 74 ∧ ¬ ran.1.IsToldBy (Program.ofSource []) ended.1.code := by
  intro w setup ended ran
  have hCode : ended.1.code = 74 := by decide +kernel
  have hExecuted : ran.1.executed = 0 := by decide +kernel
  have hClean : (Program.ofSource []).diagnostics = [] := by decide +kernel
  have hEmpty : (Program.ofSource []).program.statements.length = 0 := by decide +kernel
  refine ⟨by decide +kernel, by decide +kernel, hExecuted, hClean, hEmpty, hCode, fun hTold => ?_⟩
  have hZero := hTold.zero_iff.mpr ⟨hClean, hExecuted.trans hEmpty.symm⟩
  rw [hCode] at hZero
  cases hZero

end Memory
end Lox
