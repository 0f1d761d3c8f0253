import Lox.Diagnostic
import Lox.Event
import Lox.Host
import Lox.Text.LowerCase
import Lox.Yaml.Reader
import Lox.Yaml.Scalar
import Lox.Yaml.Writer

/-! The settings of the interpreter, as files hold them. -/
namespace Lox

/-- The settings as they are written. A limit of zero is none. -/
structure Settings where
  diagnostics : Text
  prompt : Text
  logLevel : Text
  maxIterations : Int64
  timeoutMs : Int64
  runOnParseError : Bool
  deriving DecidableEq, Repr

inductive SettingsError where
  /-- The text is no well-formed document. -/
  | malformed
  /-- Parts of the document do not fit the settings. -/
  | mismatched (problems : List Text)
  /-- Settings have values that make no sense. -/
  | invalid (issues : List Text)
  deriving DecidableEq, Repr

namespace SettingsError

/-- The message about a settings text, or about the file at `path`. -/
def message (path : Text) : SettingsError → Text
  | .malformed => "yaml: could not read the document"
  | .mismatched problems =>
    Text.concat ("yaml: unmarshal errors:" ::
      problems.map fun p => Text.concat ["\n  ", p])
  | .invalid issues =>
    Text.concat ["config validation failed", if path = [] then [] else Text.concat [" for ", path],
      ":", Text.concat (issues.map fun issue => Text.concat ["\n- ", issue])]

end SettingsError

namespace Settings

def default : Settings := ⟨"text", "> ", "warn", 0, 0, true⟩

/-- The log level of a given name; case does not matter, and the empty name means warnings. -/
def levelOf? (name : Text) : Option LogLevel :=
  let name := Text.lower name
  if name = "debug" then some .debug
  else if name = "info" then some .info
  else if name = "warn" ∨ name = "warning" ∨ name = [] then some .warn
  else if name = "error" then some .error
  else none

def format (s : Settings) : DiagnosticFormat := (DiagnosticFormat.ofName? s.diagnostics).getD .text

def level (s : Settings) : LogLevel := (levelOf? s.logLevel).getD .warn

/-- The limits of a run. The time limit in nanoseconds wraps around at 64 bits. -/
def budget (s : Settings) : Budget := ⟨s.maxIterations, s.timeoutMs * 1000000⟩

/-- Everything that makes no sense about the settings. -/
def issues (s : Settings) : List Text :=
  (if (DiagnosticFormat.ofName? s.diagnostics).isNone then
    [Text.concat ["diagnostics must be text or json, got ", Text.quoted s.diagnostics]] else []) ++
  (if (levelOf? s.logLevel).isNone then
    [Text.concat ["log_level must be debug, info, warn or error, got ", Text.quoted s.logLevel]]
    else []) ++
  (if s.maxIterations < 0 then
    [Text.ofString "budget.max_iterations must not be negative"] else []) ++
  (if s.timeoutMs < 0 then [Text.ofString "budget.timeout_ms must not be negative"] else [])

/-- The settings as a document. -/
def write (s : Settings) : Text :=
  Text.concat
    ["diagnostics: ", Yaml.writeString s.diagnostics,
     "\nprompt: ", Yaml.writeString s.prompt,
     "\nlog_level: ", Yaml.writeString s.logLevel,
     "\nbudget:\n  max_iterations: ", Text.ofInt s.maxIterations.toInt,
     "\n  timeout_ms: ", Text.ofInt s.timeoutMs.toInt,
     "\nrun_on_parse_error: ", if s.runOnParseError then "true" else "false", "\n"]

/-! Reading a document of settings. Every problem is noted and the rest is read all the same. -/

/-- A value with the problems noted while it was read. -/
abbrev Noted (α : Type) := α × List Text

/-- What is said of a node that does not fit a type. -/
def misfit (node : Yaml.Node) (type : String) : Text :=
  let start : Text := Text.concat ["line ", Text.ofNat node.line, ": cannot unmarshal "]
  let shown : Text := match node with
    | .sequence .. => "!!seq"
    | .mapping .. => "!!map"
    | .scalar text quoted _ =>
      let tag := if quoted then "!!str" else (Yaml.Scalar.ofPlain text).tag
      let cut : Text := if 10 < text.length then text.take 7 ++ Text.ofString "..." else text
      Text.concat [tag, " ", [96], cut, [96]]
  Text.concat [start, shown, " into ", type]

/-- What is said of keys that a mapping has more than once. -/
def duplicates : List (Yaml.Node × Yaml.Node) → List Text
  | [] => []
  | (key, _) :: rest =>
    (rest.filterMap fun (other, _) =>
      match key, other with
      | .scalar a _ line, .scalar b _ later =>
        if a = b then
          some (Text.concat ["line ", Text.ofNat later, ": mapping key ", Text.quoted b,
            " already defined at line ", Text.ofNat line])
        else none
      | .sequence _ line, .sequence _ later | .mapping _ line, .mapping _ later =>
        some (Text.concat ["line ", Text.ofNat later, ": mapping key \"\" already defined at line ",
          Text.ofNat line])
      | _, _ => none) ++ duplicates rest

/-- Reads the entries of a mapping into a record of the named type, each by `field`, which knows
the record's keys. A key that stands for nothing is passed over. -/
def readEntries {α : Type} (type : String) (field : Text → Option (Yaml.Node → α → Noted α))
    (entries : List (Yaml.Node × Yaml.Node)) (start : α) : Noted α :=
  match duplicates entries with
  | problem :: problems => (start, problem :: problems)
  | [] =>
    entries.foldl (fun (record, problems) (key, value) =>
      match key with
      | .scalar name quoted line =>
        match quoted, Yaml.Scalar.ofPlain name with
        | false, .null => (record, problems)
        | _, _ =>
          match field name with
          | some read =>
            let (record, more) := read value record
            (record, problems ++ more)
          | none => (record, problems ++ [Text.concat
              ["line ", Text.ofNat line, ": field ", name, " not found in type ", type]])
      | key =>
        let inner := match key with
          | .mapping entries _ => duplicates entries
          | _ => []
        (record, problems ++ if inner.isEmpty then [misfit key "string"] else inner)) (start, [])

def refuse {α : Type} (node : Yaml.Node) (type : String) (old : α) : Noted α :=
  match node with
  | .mapping entries _ =>
    match duplicates entries with
    | [] => (old, [misfit node type])
    | problems => (old, problems)
  | _ => (old, [misfit node type])

/-- A string. Any scalar will do, by its text; nothing leaves the old value. -/
def readText (node : Yaml.Node) (old : Text) : Noted Text :=
  match node with
  | .scalar text true _ => (text, [])
  | .scalar text false _ =>
    match Yaml.Scalar.ofPlain text with
    | .null => (old, [])
    | _ => (text, [])
  | node => refuse node "string" old

def readBool (node : Yaml.Node) (old : Bool) : Noted Bool :=
  let byWord (text : Text) : Noted Bool :=
    if [Text.ofString "y", Text.ofString "Y", Text.ofString "yes", Text.ofString "on"].contains text
    then (true, [])
    else if
      [Text.ofString "n", Text.ofString "N", Text.ofString "no", Text.ofString "off"].contains text
    then (false, [])
    else (old, [misfit node "bool"])
  match node with
  | .scalar text true _ => byWord text
  | .scalar text false _ =>
    match Yaml.Scalar.ofPlain text with
    | .null => (old, [])
    | .bool b => (b, [])
    | .str => byWord text
    | _ => (old, [misfit node "bool"])
  | node => refuse node "bool" old

/-- A whole number of 64 bits. A fraction is cut off. -/
def readInt (node : Yaml.Node) (old : Int64) : Noted Int64 :=
  match node with
  | .scalar _ true _ => (old, [misfit node "int64"])
  | .scalar text false _ =>
    match Yaml.Scalar.ofPlain text with
    | .null => (old, [])
    | .int n => if n < Decimal.int64Bound then (Int64.ofInt n, []) else (old, [misfit node "int64"])
    | .float x =>
      match Yaml.Scalar.toInt64? x with
      | some n => (n, [])
      | none => (old, [misfit node "int64"])
    | _ => (old, [misfit node "int64"])
  | node => refuse node "int64" old

/-- A record from a mapping. Nothing leaves the old one. -/
def readRecord {α : Type} (type : String) (field : Text → Option (Yaml.Node → α → Noted α))
    (node : Yaml.Node) (old : α) : Noted α :=
  match node with
  | .mapping entries _ => readEntries type field entries old
  | .scalar text false _ =>
    match Yaml.Scalar.ofPlain text with
    | .null => (old, [])
    | _ => (old, [misfit node type])
  | node => (old, [misfit node type])

/-- The settings inside `budget`. -/
def budgetField (name : Text) : Option (Yaml.Node → Settings → Noted Settings) :=
  if name = "max_iterations" then some fun node s =>
    let (maxIterations, problems) := readInt node s.maxIterations
    ({ s with maxIterations }, problems)
  else if name = "timeout_ms" then some fun node s =>
    let (timeoutMs, problems) := readInt node s.timeoutMs
    ({ s with timeoutMs }, problems)
  else none

def field (name : Text) : Option (Yaml.Node → Settings → Noted Settings) :=
  if name = "diagnostics" then some fun node s =>
    let (diagnostics, problems) := readText node s.diagnostics
    ({ s with diagnostics }, problems)
  else if name = "prompt" then some fun node s =>
    let (prompt, problems) := readText node s.prompt
    ({ s with prompt }, problems)
  else if name = "log_level" then some fun node s =>
    let (logLevel, problems) := readText node s.logLevel
    ({ s with logLevel }, problems)
  else if name = "budget" then some (readRecord "config.BudgetConfig" budgetField)
  else if name = "run_on_parse_error" then some fun node s =>
    let (runOnParseError, problems) := readBool node s.runOnParseError
    ({ s with runOnParseError }, problems)
  else none

/-- Reads settings from a document. What the document does not say keeps its default. -/
def parse (source : Text) : Except SettingsError Settings :=
  match Yaml.parse? source with
  | none => .error .malformed
  | some node =>
    match readRecord "config.Config" field node default with
    | (s, []) => if s.issues.isEmpty then .ok s else .error (.invalid s.issues)
    | (_, problems) => .error (.mismatched problems)

end Settings
end Lox
