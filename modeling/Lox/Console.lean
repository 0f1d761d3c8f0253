import Lox.Session

/-! What a command can ask of the process it runs in. The commands are written against this
interface, so that they work alike on a real system and on one in memory. -/
namespace Lox

inductive FileError where
  | missing
  /-- The path leads through something that is no folder. -/
  | notFolder
  /-- The path leads to a folder. -/
  | folder
  | other (reason : Text)
  deriving DecidableEq, Repr

namespace FileError

def reason : FileError → Text
  | .missing => "no such file or directory"
  | .notFolder => "not a directory"
  | .folder => "is a directory"
  | .other reason => reason

def ofReason (reason : Text) : FileError :=
  match [missing, notFolder, folder].find? fun e => e.reason == reason with
  | some e => e
  | none => .other reason

/-- The failure to read the file at `path`. A folder can be opened, but not read. -/
def onRead (path : Text) (e : FileError) : Text :=
  let step : String := if e = .folder then "read " else "open "
  Text.concat [step, path, ": ", e.reason]

/-- The failure to open the file at `path` for writing. -/
def onWrite (path : Text) (e : FileError) : Text := Text.concat ["open ", path, ": ", e.reason]

end FileError

/-- A moment of the clock, and how logs and traces show it. -/
structure Moment where
  nanoseconds : Nat
  logText : Text
  traceText : Text
  deriving DecidableEq, Repr

/-- The services of a process in a monad `m`. -/
structure Console (m : Type → Type) where
  /-- The working directory. -/
  directory : m Text
  /-- The home directory, if there is one. -/
  home : m (Option Text)
  /-- Reads the file at a path. -/
  read : (path : Text) → m (Except FileError Text)
  /-- Replaces the file at a path. -/
  write : (path content : Text) → m (Except FileError Unit)
  /-- The rest of the standard input, or why it could not be read. -/
  input : m (Except Text Text)
  /-- Takes the lines of the standard input one by one, until it ends or fails for a reason. -/
  forLines : {σ : Type} → σ → (σ → Text → m σ) → m (σ × Option Text)
  /-- Writes to the standard output. A failure is not noticed. -/
  print : Text → m Unit
  /-- Writes to the standard error. -/
  warn : Text → m Unit
  moment : m Moment
  /-- Runs a source in a session, as long as time permits and the standard output takes what it
  writes. What the run shows is not written yet. -/
  run : Session → (source file : Text) → m (SourceResult × Session)

end Lox
