import Lox.Execution
import Lox.Program.Printer
import Lox.Program.StmtReader

/-! A session runs one source after the other over the same global scope. -/
namespace Lox

/-- How a process ends. -/
inductive ExitStatus where
  | ok
  /-- The command line or the settings make no sense. -/
  | usage
  /-- The source has lexical or syntax errors. -/
  | badSource
  /-- A statement failed or the run was cut short. -/
  | failed
  /-- Something could not be read or written. -/
  | ioError
  deriving DecidableEq, Repr

/-- The numbers of the statuses follow the convention of `sysexits`. -/
def ExitStatus.code : ExitStatus → Nat
  | .ok => 0
  | .usage => 64
  | .badSource => 65
  | .failed => 70
  | .ioError => 74

structure Conduct where
  budget : Budget
  /-- Whether to run what could be read of a source with errors. -/
  runOnParseError : Bool
  runId : Text
  /-- How many iterations of each loop are followed. -/
  horizon : Nat
  deriving DecidableEq, Repr

structure Session where
  host : Host
  conduct : Conduct
  machine : Machine

structure SourceResult where
  /-- Every problem reported, in the order of the reports. -/
  diagnostics : List Diagnostic
  syntaxErrors : Nat
  runtimeErrors : Nat
  executed : Nat
  error : Option RunError
  deriving DecidableEq, Repr

/-- The exit status after a source. Syntax errors come before runtime errors. -/
def SourceResult.status (r : SourceResult) : ExitStatus :=
  if 0 < r.syntaxErrors then .badSource
  else if 0 < r.runtimeErrors then .failed
  else .ok

/-- Whether time was up before the end of a source. -/
def SourceResult.timedOut (r : SourceResult) : Bool :=
  match r.error with
  | some (.budget ⟨.time _, _⟩) => true
  | some (.interruptedBefore _ .deadline) | some (.interrupted .deadline) => true
  | _ => false

namespace Session

def start (host : Host) (conduct : Conduct) : Session := ⟨host, conduct, .initial⟩

def record (s : Session) (e : Event) : Session := { s with machine := s.machine.record e }

def reportAll (s : Session) (ds : List Diagnostic) : Session :=
  ds.foldl (fun s d => s.record (.report d)) s

/-- What the session has shown since its events were last cleared. -/
def events (s : Session) : List Event := s.machine.events.toList

def clear (s : Session) : Session := { s with machine := { s.machine with events := #[] } }

/-- Reads and runs a source. What is wrong with its text is reported first, then the failures of
statements as they happen. -/
def run (s : Session) (source file : Text) : SourceResult × Session :=
  let scan := Scan.ofSource source
  let parse := Program.ofTokens scan.tokens
  let problems := scan.diagnostics ++ parse.diagnostics
  let s := s.reportAll problems
  let s := s.record (.log (.parsed file scan.tokens.length parse.program.statements.length
    problems.length))
  if !problems.isEmpty && !s.conduct.runOnParseError then
    (⟨problems, problems.length, 0, 0, none⟩, s)
  else
    let (result, machine) := s.machine.execute s.host s.conduct.budget s.conduct.runId
      s.conduct.horizon parse.program
    let s := { s with machine }
    let s := match result.error with
      | none | some .crashed => s
      | some e => s.record (.log (.runStopped file e.message))
    (⟨problems ++ result.diagnostics, problems.length, result.diagnostics.length,
      result.executed, result.error⟩, s)

/-- The canonical text of a source without errors. Comments are lost, which is logged. -/
def format (s : Session) (source : Text) : Except (List Diagnostic) Text × Session :=
  let parse := Program.ofSource source
  if !parse.diagnostics.isEmpty then (.error parse.diagnostics, s)
  else
    let s := if hasComments source then s.record (.log .commentsDropped) else s
    (.ok parse.program.format, s)

end Session
end Lox
