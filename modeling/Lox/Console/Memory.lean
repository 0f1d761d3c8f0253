import Lox.Console.Files

/-! A process in memory: its files are a tree, its input is given beforehand, and its clock stands
still but for the pauses that are asked for. -/
namespace Lox

structure Memory where
  files : Files
  directory : Path
  home : Option Path
  input : Text
  /-- Why reading fails after the whole input has been taken; otherwise the input just ends. -/
  trouble : Option Text
  /-- Why the standard output refuses the next write after so many, if it does. -/
  refusal : (writes : Nat) → Option Text
  timing : Host.Timing
  /-- How many iterations of each loop are followed. -/
  horizon : Nat
  /-- The writes that the standard output has taken, the latest first. -/
  output : List Text
  /-- The writes to the standard error, the latest first. -/
  errors : List Text

namespace Memory

/-- An absolute path as it is written. -/
def written (path : Path) : Text := path.flatMap fun name => 47 :: name

def outputText (s : Memory) : Text := Text.concat s.output.reverse

def errorText (s : Memory) : Text := Text.concat s.errors.reverse

/-- A write to the standard output, which may be refused. -/
def print (text : Text) (s : Memory) : Memory :=
  match s.refusal s.output.length with
  | some _ => s
  | none => { s with output := text :: s.output }

def host (s : Memory) : Host := ⟨s.refusal, s.timing.interrupt none⟩

def run (session : Session) (source file : Text) (s : Memory) : SourceResult × Session :=
  let progress := { session.machine.progress with writes := s.output.length }
  { host := s.host
    conduct := { session.conduct with horizon := s.horizon }
    machine := { session.machine with progress } : Session }.run source file

/-- Reads the lines of the input one after the other. -/
def forLines {σ : Type} (start : σ) (body : σ → Text → StateM Memory σ) :
    StateM Memory (σ × Option Text) := do
  let s ← get
  set { s with input := [] }
  let (lines, tooLong) := Text.boundedLines s.input
  let last ← lines.foldlM body start
  pure (last, if tooLong then some Text.tooLong else s.trouble)

def console : Console (StateM Memory) where
  directory := return written (← get).directory
  home := return (← get).home.map written
  read path := return (← get).files.read (← get).directory path
  write path content := do
    let s ← get
    match s.files.write s.directory path content with
    | .error e => pure (.error e)
    | .ok files =>
      set { s with files }
      pure (.ok ())
  input := do
    let s ← get
    set { s with input := [] }
    pure <| match s.trouble with
      | some reason => .error reason
      | none => .ok s.input
  forLines := forLines
  print text := modify (print text)
  warn text := modify fun s => { s with errors := text :: s.errors }
  moment := pure ⟨0, "T", "T"⟩
  run session source file := return run session source file (← get)

end Memory
end Lox
