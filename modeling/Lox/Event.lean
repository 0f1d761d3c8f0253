import Lox.Diagnostic

/-! What a run shows of itself: output, diagnostics, trace events and log entries. A trace is written
as lines of JSON, and the log as lines of `key=value` pairs. -/
namespace Lox

inductive Trace where
  | runStart (line : Int) (statements : Nat)
  | runEnd (executed errors : Nat)
  | stmtStart (line : Int) (kind : String)
  | stmtEnd (line : Int)
  | scopePush (line : Int) (depth : Nat)
  | scopePop (line : Int) (depth : Nat)
  | print (line : Int) (value : Value)
  | runtimeError (line : Int) (code : Code) (message : Text)
  | budgetExceeded (line : Int) (message : Text)
  deriving DecidableEq, Repr

/-- What a written trace event tells about the run it belongs to. -/
structure Stamp where
  time : Text
  runId : Text
  elapsedMs : Nat
  deriving DecidableEq, Repr

namespace Trace

def name : Trace → String
  | .runStart .. => "run_start"
  | .runEnd .. => "run_end"
  | .stmtStart .. => "stmt_start"
  | .stmtEnd .. => "stmt_end"
  | .scopePush .. => "scope_push"
  | .scopePop .. => "scope_pop"
  | .print .. => "print"
  | .runtimeError .. => "runtime_error"
  | .budgetExceeded .. => "budget_exceeded"

/-- The line an event is about, zero for none. -/
def line : Trace → Int
  | .runStart line _ => line
  | .runEnd .. => 0
  | .stmtStart line _ => line
  | .stmtEnd line => line
  | .scopePush line _ => line
  | .scopePop line _ => line
  | .print line _ => line
  | .runtimeError line _ _ => line
  | .budgetExceeded line _ => line

/-- The particulars of an event, in the order of their names. -/
def data (elapsedMs : Nat) : Trace → List (String × Json)
  | .runStart _ statements => [("statements", .int statements)]
  | .runEnd executed errors =>
    [("elapsedMs", .int elapsedMs), ("errors", .int errors), ("executed", .int executed)]
  | .stmtStart _ kind => [("kind", .string kind)]
  | .stmtEnd _ => []
  | .scopePush _ depth => [("depth", .int depth)]
  | .scopePop _ depth => [("depth", .int depth)]
  | .print _ value => [("value", value.toJson)]
  | .runtimeError _ code message => [("code", .string code.name), ("message", .string message)]
  | .budgetExceeded _ message => [("message", .string message)]

def object (members : List (String × Json)) : Json :=
  .object (members.map fun (key, value) => (Text.ofString key, value))

/-- The event as a JSON object. A line of zero and empty particulars are left out. -/
def toJson (stamp : Stamp) (t : Trace) : Json :=
  object <|
    [("ts", .string stamp.time), ("runId", .string stamp.runId), ("event", .string t.name)] ++
    (if t.line = 0 then [] else [("line", .int t.line)]) ++
    (if (t.data 0).isEmpty then [] else [("data", object (t.data stamp.elapsedMs))])

def written (stamp : Stamp) (t : Trace) : Text := (t.toJson stamp).render

end Trace

inductive LogLevel where
  | debug | info | warn | error
  deriving DecidableEq, Repr

namespace LogLevel

def name : LogLevel → String
  | .debug => "DEBUG"
  | .info => "INFO"
  | .warn => "WARN"
  | .error => "ERROR"

/-- Levels from the least to the most important. -/
def rank : LogLevel → Nat
  | .debug => 0
  | .info => 1
  | .warn => 2
  | .error => 3

end LogLevel

inductive LogEntry where
  | configLoaded (path : Text)
  | parsed (file : Text) (tokens statements diagnostics : Nat)
  | runStart (runId : Text) (statements : Nat)
  | runEnd (runId : Text) (executed errors : Nat)
  | scopePush (depth : Nat) (line : Int)
  | scopePop (depth : Nat) (line : Int)
  | statementFailed (line : Int) (code : Code) (message : Text)
  | runStopped (file : Text) (error : Text)
  | commentsDropped
  deriving DecidableEq, Repr

namespace LogEntry

def level : LogEntry → LogLevel
  | .commentsDropped => .warn
  | _ => .debug

def message : LogEntry → String
  | .configLoaded .. => "config loaded"
  | .parsed .. => "parsed"
  | .runStart .. => "run start"
  | .runEnd .. => "run end"
  | .scopePush .. => "scope push"
  | .scopePop .. => "scope pop"
  | .statementFailed .. => "statement failed"
  | .runStopped .. => "run stopped"
  | .commentsDropped => "comments are not preserved by the formatter"

def attributes : LogEntry → List (String × Text)
  | .configLoaded path => [("path", path)]
  | .parsed file tokens statements diagnostics =>
    [("file", file), ("tokens", Text.ofNat tokens), ("statements", Text.ofNat statements),
     ("diagnostics", Text.ofNat diagnostics)]
  | .runStart runId statements => [("runId", runId), ("statements", Text.ofNat statements)]
  | .runEnd runId executed errors =>
    [("runId", runId), ("executed", Text.ofNat executed), ("errors", Text.ofNat errors)]
  | .scopePush depth line => [("depth", Text.ofNat depth), ("line", Text.ofInt line)]
  | .scopePop depth line => [("depth", Text.ofNat depth), ("line", Text.ofInt line)]
  | .statementFailed line code message =>
    [("line", Text.ofInt line), ("code", code.name), ("message", message)]
  | .runStopped file error => [("file", file), ("error", error)]
  | .commentsDropped => []

/-- The entry with its particulars as they are. -/
def plainText (e : LogEntry) : Text :=
  Text.join " " <| [Text.ofString e.level.name, Text.ofString e.message] ++
    e.attributes.map fun (key, value) => Text.concat [key, "=", value]

/-- Whether a character would blur the bounds of a value that is not quoted. -/
def blurs (g : Glyph) : Bool :=
  match g.bytes with
  | [b] => b ≤ 32 || b == Text.quote || b == 61 || 0x80 ≤ b
  | _ => g.char == Glyph.replacement || Text.isBlank g.char || !Text.isPrintable g.char

/-- A value as it stands in a line: quoted if it is empty or its bounds would not be clear. -/
def attributeText (value : Text) : Text :=
  if value.isEmpty || (Text.glyphs value).any blurs then Text.quoted value else value

/-- The line of an entry made at a given time. -/
def line (time : Text) (e : LogEntry) : Text :=
  let pair (key : String) (value : Text) : Text := Text.concat [key, "=", value]
  let pairs := [pair "time" time, pair "level" e.level.name, pair "msg" (attributeText e.message)] ++
    e.attributes.map fun (key, value) => pair key (attributeText value)
  Text.join " " pairs ++ [Text.newline]

end LogEntry

inductive Event where
  /-- A write that the output sink took. -/
  | output (text : Text)
  /-- A diagnostic that was reported. -/
  | report (d : Diagnostic)
  | trace (t : Trace)
  | log (e : LogEntry)
  deriving DecidableEq, Repr

def Event.trace? : Event → Option Trace
  | .trace t => some t
  | _ => none

end Lox
