import Lox.Clock.Calendar
import Lox.CommandLine
import Std.Time.DateTime.Timestamp

/-! The program on a real system. -/
namespace Lox.Process

def ofBytes (bytes : ByteArray) : Text := bytes.data.toList

def toBytes (t : Text) : ByteArray := ⟨t.toArray⟩

/-- A text as a string. Stray bytes are replaced. -/
def toString (t : Text) : String := String.ofList ((Text.glyphs t).map fun g => g.char)

def reason (e : IO.Error) : Text :=
  let text := match e with
    | .noFileOrDirectory _ _ text | .inappropriateType _ _ text | .permissionDenied _ _ text
    | .resourceExhausted _ _ text | .resourceVanished _ text => text
    | e => e.toString
  Text.ofString (match text.toList with
    | [] => ""
    | c :: rest => String.ofList (c.toLower :: rest))

def attempt {α : Type} (work : IO α) : IO (Except FileError α) := do
  try
    return .ok (← work)
  catch e => return .error (FileError.ofReason (reason e))

/-- All that is left of a stream. -/
partial def drain (stream : IO.FS.Stream) (done : ByteArray) : IO ByteArray := do
  let bytes ← stream.read 65536
  if bytes.isEmpty then return done else drain stream (done ++ bytes)

/-- The next line of a stream, backwards and without its newline, and whether the stream has
ended. A line that is too long is left where it passes the limit. -/
partial def line (stream : IO.FS.Stream) (done : Text) (size : Nat) : IO (Text × Bool) := do
  if Text.lineLimit ≤ size then return (done, false)
  let bytes ← stream.read 1
  match bytes.data.toList with
  | [] => return (done, true)
  | b :: _ => if b = Text.newline then return (done, false) else line stream (b :: done) (size + 1)

/-- Takes the lines of a stream one by one. -/
partial def forLines {σ : Type} (stream : IO.FS.Stream) (state : σ) (body : σ → Text → IO σ) :
    IO (σ × Option Text) := do
  let next ← try
      pure (Except.ok (← line stream [] 0))
    catch e => pure (Except.error (reason e))
  match next with
  | .error reason => return (state, some reason)
  | .ok (text, ended) =>
    if Text.lineLimit ≤ text.length then return (state, some Text.tooLong)
    if ended && text.isEmpty then return (state, none)
    let state ← body state (Text.dropReturn text.reverse)
    if ended then return (state, none) else forLines stream state body

/-- Writes to a stream at once. A failure is not noticed. -/
def emit (stream : IO.FS.Stream) (t : Text) : IO Unit := do
  try
    stream.write (toBytes t)
    stream.flush
  catch _ => return

def moment : IO Moment := do
  let now ← Std.Time.Timestamp.now
  let nanoseconds := now.toNanosecondsSinceUnixEpoch.val.toNat
  return ⟨nanoseconds, Clock.written 3 nanoseconds, Clock.written 9 nanoseconds⟩

/-- Runs a source that began at `start`. A run with a time limit may ask `polls` times whether to go
on; when it has used them up and there is time left, it is run from its beginning with twice as
many. -/
partial def run (start polls : Nat) (session : Session) (source file : Text) :
    IO (SourceResult × Session) := do
  let limit := session.conduct.budget.timeout
  let host : Host :=
    { refusal := fun _ => none
      interrupt := fun timeout start now =>
        if 0 < timeout ∧ start.polls + polls ≤ now.polls then some .deadline else none }
  let conduct := { session.conduct with horizon := 2 ^ 62 }
  let (result, after) := { session with host, conduct }.run source file
  if result.timedOut then
    let elapsed := (← IO.monoNanosNow) - start
    if (elapsed : Int) < limit.toInt then return ← run start (2 * polls) session source file
  return (result, after)

/-- The services of the system over its standard streams. -/
def console (stdin stdout stderr : IO.FS.Stream) : Console IO where
  directory := return (← IO.currentDir).toString
  home := return ((← IO.getEnv "HOME").filter (· != "")).map Text.ofString
  read path := attempt (return ofBytes (← IO.FS.readBinFile (toString path)))
  write path content := attempt (IO.FS.writeBinFile (toString path) (toBytes content))
  input := do
    try
      return .ok (ofBytes (← drain stdin ByteArray.empty))
    catch e => return .error (reason e)
  forLines := forLines stdin
  print := emit stdout
  warn := emit stderr
  moment := moment
  run session source file := do run (← IO.monoNanosNow) 1000 session source file

end Lox.Process

def main (args : List String) : IO UInt32 := do
  let console := Lox.Process.console (← IO.getStdin) (← IO.getStdout) (← IO.getStderr)
  let status ← console.commandLine (args.map Lox.Text.ofString)
  return status.code.toUInt32
