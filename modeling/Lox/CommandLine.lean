import Lox.CommandLine.Options
import Lox.Console
import Lox.Help
import Lox.Settings
import Lox.Trace.Summary

/-! The commands of the program. -/
namespace Lox

inductive LoadError where
  | unreadable (e : FileError)
  | unusable (e : SettingsError)
  deriving DecidableEq, Repr

def LoadError.message (path : Text) : LoadError → Text
  | .unreadable e => Text.concat ["config: read ", path, ": ", e.onRead path]
  | .unusable (.invalid issues) => (SettingsError.invalid issues).message path
  | .unusable e => Text.concat ["config: parse ", path, ": ", e.message path]

/-- The exit status of a process that has run one source. A failed write comes first; a run that
was cut short has failed, unless its budget ran out, which counts as any runtime error. -/
def SourceResult.processStatus (r : SourceResult) : ExitStatus :=
  match r.error with
  | some (.interruptedBefore ..) | some (.interrupted _) | some .crashed | some .unfinished => .failed
  | none | some (.budget _) =>
    if r.diagnostics.any (·.code = .io) then .ioError else r.status

/-- What is said at the end of a run that was cut short. An exhausted budget has been reported. -/
def RunError.complaint : RunError → Option Text
  | .budget _ => none
  | e => some (Text.concat ["error: ", e.message])

def Token.listed (t : Token) : Text :=
  Text.concat [Text.padLeft 4 (Text.ofInt t.line), "  ", t.text, "\n"]

/-- A token as a JSON object. Only a literal other than nil is shown. -/
def Token.toJson (t : Token) : Json :=
  .object <|
    [(Text.ofString "kind", .string t.kind.name), (Text.ofString "lexeme", .string t.lexeme),
     (Text.ofString "line", .int t.line)] ++
    match t.literal.toJson with
    | .null => []
    | literal => [(Text.ofString "literal", literal)]

structure Setup where
  options : Options
  settings : Settings
  /-- The file that the settings come from, empty if they come from none. -/
  settingsPath : Text
  deriving DecidableEq, Repr

/-- A session with the settings of a command. How long loops are followed is left to the
process. -/
def Setup.session (setup : Setup) (runId : Text) : Session :=
  Session.start Host.ideal ⟨setup.settings.budget, setup.settings.runOnParseError, runId, 0⟩

namespace Console

variable {m : Type → Type} [Monad m] (c : Console m)

def printLine (text : Text) : m Unit := c.print (text ++ [Text.newline])

def warnLine (text : Text) : m Unit := c.warn (text ++ [Text.newline])

/-- Logs an entry, if it matters enough. -/
def log (settings : Settings) (e : LogEntry) : m Unit := do
  if settings.level.rank ≤ e.level.rank then
    c.warn (e.line (← c.moment).logText)

/-- Writes what a run has shown, except for its trace. -/
def showEvents (settings : Settings) (events : List Event) : m Unit :=
  events.forM fun
    | .output text => c.print text
    | .report d => c.warnLine (d.render settings.format)
    | .log e => c.log settings e
    | .trace _ => pure ()

def loadFile (path : Text) : m (Except LoadError Settings) := do
  match ← c.read path with
  | .error e => pure (.error (.unreadable e))
  | .ok content => pure ((Settings.parse content).mapError .unusable)

/-- Where settings are looked for: in the working directory and then in the home directory. -/
def settingsPaths : m (List Text) := do
  let project := Text.concat [← c.directory, "/.rlux.yaml"]
  match ← c.home with
  | some home => pure [project, Text.concat [home, "/.rlux/config.yaml"]]
  | none => pure [project]

/-- Loads the settings from the first of the paths that exists. The default settings have no
path. -/
def loadFirst : List Text → m (Except Text (Settings × Text))
  | [] => pure (.ok (Settings.default, []))
  | path :: rest => do
    match ← c.loadFile path with
    | .error (.unreadable .missing) => loadFirst rest
    | .error e => pure (.error (e.message path))
    | .ok settings => pure (.ok (settings, path))

def loadSettings (options : Options) : m (Except Text (Settings × Text)) := do
  if options.settingsPath = [] then c.loadFirst (← c.settingsPaths)
  else
    match ← c.loadFile options.settingsPath with
    | .error e => pure (.error (e.message options.settingsPath))
    | .ok settings => pure (.ok (settings, options.settingsPath))

/-- Reads a source by its name and goes on with it and the name to call it by, or complains. -/
def withSource (name : Text) (next : (source file : Text) → m ExitStatus) : m ExitStatus := do
  if name = "-" then
    match ← c.input with
    | .ok source => next source "<stdin>"
    | .error reason =>
      c.warnLine (Text.concat ["error reading stdin: ", reason])
      pure .ioError
  else
    match ← c.read name with
    | .ok source => next source name
    | .error _ =>
      c.warnLine (Text.concat ["error: cannot read file: ", name])
      pure .ioError

/-- Runs a source in a session and writes what it shows. -/
def runShown (setup : Setup) (session : Session) (source file : Text) :
    m (SourceResult × Session) := do
  let (result, session) ← c.run session.clear source file
  c.showEvents setup.settings session.events
  match result.error.bind RunError.complaint with
  | some complaint => c.warnLine complaint
  | none => pure ()
  pure (result, session)

/-- A trace as lines, one for each event with its stamp. -/
def traceLines (trace : List (Stamp × Trace)) : Text :=
  trace.flatMap fun e => e.2.written e.1 ++ [Text.newline]

/-- Stamps the events of a run that began at `start`, each at a moment of its own. -/
def stamped (runId : Text) (start : Moment) (ts : List Trace) : m (List (Stamp × Trace)) :=
  ts.mapM fun t => do
    let now ← c.moment
    pure (⟨now.traceText, runId, (now.nanoseconds - start.nanoseconds) / 1000000⟩, t)

def runCommand (setup : Setup) (path : Text) : m ExitStatus :=
  c.withSource path fun source file => do
    let start ← c.moment
    let session := setup.session (Text.concat ["run-", Text.ofNat start.nanoseconds])
    let target := setup.options.tracePath
    if target = [] then
      let (result, _) ← c.runShown setup session source file
      pure result.processStatus
    else
      match ← c.write target [] with
      | .error e =>
        c.warnLine (Text.concat ["error: cannot create trace file: ", e.onWrite target])
        pure .ioError
      | .ok () =>
        let (result, session) ← c.runShown setup session source file
        let trace ← c.stamped session.conduct.runId start (session.events.filterMap Event.trace?)
        let _ ← c.write target (traceLines trace)
        pure result.processStatus

/-- Runs the lines of the standard input one after the other. -/
def replCommand (setup : Setup) : m ExitStatus := do
  c.print setup.settings.prompt
  let (_, trouble) ← c.forLines (setup.session "repl") fun session line => do
    let session ←
      if Text.trim line = [] then pure session
      else do
        let (_, session) ← c.runShown setup session line "<repl>"
        pure session
    c.print setup.settings.prompt
    pure session
  c.print "\n"
  match trouble with
  | none => pure .ok
  | some reason =>
    c.warnLine (Text.concat ["error reading input: ", reason])
    pure .ioError

def checkCommand (setup : Setup) (path : Text) : m ExitStatus :=
  c.withSource path fun source _ => do
    match (Program.ofSource source).diagnostics with
    | [] =>
      c.printLine (if setup.settings.format = .json then "[]" else "No errors found.")
      pure .ok
    | ds =>
      c.warnLine (Diagnostic.renderAll setup.settings.format ds)
      pure .badSource

/-- Writes a source in its canonical form, in place or to the standard output. -/
def formatCommand (setup : Setup) (path : Text) (inPlace : Bool) : m ExitStatus :=
  c.withSource path fun source _ => do
    let (formatted, session) := (setup.session "fmt").format source
    c.showEvents setup.settings session.events
    match formatted with
    | .error ds =>
      c.warnLine (Diagnostic.renderAll setup.settings.format ds)
      pure .badSource
    | .ok text =>
      if inPlace then
        match ← c.write path text with
        | .ok () => pure .ok
        | .error e =>
          c.warnLine (Text.concat ["error writing file: ", e.onWrite path])
          pure .ioError
      else
        c.print text
        pure .ok

def tokensCommand (setup : Setup) (path : Text) : m ExitStatus :=
  c.withSource path fun source _ => do
    let scan := Scan.ofSource source
    if setup.options.json then
      c.printLine (Json.array (scan.tokens.map Token.toJson)).render
    else scan.tokens.forM fun t => c.print t.listed
    match scan.diagnostics with
    | [] => pure .ok
    | ds =>
      c.warnLine (Diagnostic.renderAll setup.settings.format ds)
      pure .badSource

def traceCommand (setup : Setup) (path : Text) (plain : Bool) : m ExitStatus := do
  let complain (text : Text) : m ExitStatus := do
    c.warnLine text
    pure .ioError
  match ← c.read path with
  | .error .folder =>
    complain (Text.concat ["error reading trace: ", FileError.folder.onRead path])
  | .error _ => complain (Text.concat ["error: cannot read file: ", path])
  | .ok content =>
    match TraceSummary.ofText? content with
    | none => complain (Text.concat ["error reading trace: ", Text.tooLong])
    | some summary =>
      if plain && !setup.options.json then summary.lines.forM c.print
      else c.printLine summary.toJson.render
      pure .ok

def settingsCommand (setup : Setup) : m ExitStatus := do
  c.printLine (Text.concat
    ["# ", if setup.settingsPath = [] then "defaults" else setup.settingsPath])
  c.print setup.settings.write
  pure .ok

def helpCommand (topic : Text) : m ExitStatus := do
  if topic = [] then
    c.print Help.quickReference
    pure .ok
  else
    match Help.find topic with
    | .ok (_, page) =>
      c.print page
      pure .ok
    | .error e =>
      c.warnLine (Text.concat [e.message, "\nAvailable topics: ",
        Text.join ", " (Help.topics.map fun t => Text.ofString t.1)])
      pure .usage

def perform (setup : Setup) : Command → m ExitStatus
  | .run path => c.runCommand setup path
  | .repl => c.replCommand setup
  | .check path => c.checkCommand setup path
  | .format path inPlace => c.formatCommand setup path inPlace
  | .tokens path => c.tokensCommand setup path
  | .trace path plain => c.traceCommand setup path plain
  | .settings => c.settingsCommand setup
  | .help topic => c.helpCommand topic
  | .keywordIndex => do
    c.print Help.keywordIndex
    pure .ok

/-- Carries out what the arguments ask for. Options come first, then the settings, and only then
the command. -/
def commandLine (args : List Text) : m ExitStatus := do
  match Options.none.take args with
  | .error e =>
    c.warnLine e.message
    pure .usage
  | .ok (options, args) =>
    match ← c.loadSettings options with
    | .error message =>
      c.warnLine (Text.concat ["error: ", message])
      pure .usage
    | .ok (settings, path) =>
      let settings := if options.json then { settings with diagnostics := "json" } else settings
      if path ≠ [] then c.log settings (.configLoaded path)
      match Command.ofArgs args with
      | .error e =>
        c.warnLine e.message
        pure .usage
      | .ok command => c.perform ⟨options, settings, path⟩ command

end Console
end Lox
