import Lox.Evaluation
import Lox.Event
import Lox.Host

/-! Running statements and programs. A failure ends only the top-level statement it happens in,
unless the budget is exhausted or the surroundings ask the run to stop.

Loops are followed for at most `horizon` iterations at a time. A run that stays within the horizon
does not depend on it, and one that does not is marked as unfinished. -/
namespace Lox

/-- The state of an interpreter: its scopes, the loop iterations of the current run, how far its
surroundings have come, and everything it has shown so far. -/
structure Machine where
  scopes : Chain
  iterations : Nat
  progress : Progress
  events : Array Event
  deriving DecidableEq, Repr

namespace Machine

def initial : Machine := ⟨Chain.empty, 0, ⟨0, 0, 0⟩, #[]⟩

def record (m : Machine) (e : Event) : Machine := { m with events := m.events.push e }

/-- Opens a scope for the block on `line`. -/
def enter (line : Int) (m : Machine) : Machine :=
  let m := { m with scopes := m.scopes.push }
  let depth := m.scopes.depth
  (m.record (.trace (.scopePush line depth))).record (.log (.scopePush depth line))

def leave (line : Int) (m : Machine) : Machine :=
  let depth := m.scopes.depth
  let m := (m.record (.log (.scopePop depth line))).record (.trace (.scopePop line depth))
  { m with scopes := m.scopes.pop }

end Machine

/-- What stays the same throughout a run. -/
structure Run where
  host : Host
  budget : Budget
  runId : Text
  /-- How many iterations of each loop are followed. -/
  horizon : Nat
  /-- How far things had come when the run began. -/
  start : Progress

def Machine.poll (run : Run) (m : Machine) : Option Interrupt × Machine :=
  (run.host.interrupt run.budget.timeout run.start m.progress,
    { m with progress := { m.progress with polls := m.progress.polls + 1 } })

/-- An action of a statement on the machine. -/
abbrev Action := EStateM Stop Machine

namespace Action

def trace (t : Trace) : Action Unit := modify fun m => m.record (.trace t)

def ofEvaluation {α : Type} (e : Evaluation α) : Action α := fun m =>
  match e m.scopes with
  | .ok a scopes => .ok a { m with scopes }
  | .error f scopes => .error (.fault f) { m with scopes }

def eval (e : Expr) : Action Slot := ofEvaluation e.eval

/-- The value that is to be shown. Nothing can be shown of an absent one. -/
def present : Slot → Action Value
  | some v => pure v
  | none => throw .crashed

/-- Goes on with a loop only if the surroundings agree. A deadline counts as an exhausted budget
if the budget has a time limit. -/
def checkTime (run : Run) (keyword : Token) : Action Unit := fun m =>
  match m.poll run with
  | (none, m) => .ok () m
  | (some i, m) =>
    if 0 < run.budget.timeout ∧ i = .deadline then
      .error (.fault ⟨.time run.budget.timeoutMs, keyword⟩) m
    else .error (.interrupted i) m

/-- Counts a loop iteration, if the budget has one left. -/
def countIteration (run : Run) (keyword : Token) : Action Unit := fun m =>
  if 0 < run.budget.maxIterations ∧ run.budget.maxIterations.toInt ≤ m.iterations then
    .error (.fault ⟨.iterations run.budget.maxIterations.toInt, keyword⟩) m
  else .ok () { m with iterations := m.iterations + 1 }

def write (run : Run) (keyword : Token) (text : Text) : Action Unit := fun m =>
  match run.host.refusal m.progress.attempts with
  | some reason =>
    .error (.fault ⟨.write reason, keyword⟩)
      { m with progress := { m.progress with refused := m.progress.refused + 1 } }
  | none =>
    let line := text ++ [Text.newline]
    .ok () { m with
      progress := { m.progress with writes := m.progress.writes + 1 }
      events := m.events.push (.output line) }

/-- Tests a loop's condition and counts the iteration that follows when it holds. -/
def test (run : Run) (keyword : Token) (condition : Expr) : Action Bool := do
  checkTime run keyword
  let v ← eval condition
  if v.truthy then
    countIteration run keyword
    pure true
  else pure false

/-- Repeats `body` as long as `test` holds, at most `horizon` times. -/
def repeatWhile (test : Action Bool) (body : Action Unit) : (horizon : Nat) → Action Unit
  | 0 => throw .unfinished
  | n + 1 => fun m =>
    match test m with
    | .error stop m => .error stop m
    | .ok false m => .ok () m
    | .ok true m =>
      match body m with
      | .error stop m => .error stop m
      | .ok () m => repeatWhile test body n m

/-- Runs an action in a scope of its own, which is left on every way out. -/
def inScope (line : Int) (body : Action Unit) : Action Unit := fun m =>
  match body (m.enter line) with
  | .ok () m => .ok () (m.leave line)
  | .error stop m => .error stop (m.leave line)

/-- Marks the beginning of a statement in the trace, and its end if it completes. -/
def traced (line : Int) (kind : String) (body : Action Unit) : Action Unit := do
  trace (.stmtStart line kind)
  body
  trace (.stmtEnd line)

end Action

namespace Stmt

open Lox.Action

mutual

def exec (run : Run) (s : Stmt) : Action Unit :=
  traced s.line s.kindName <|
    match s with
    | .expr e => do
      let _ ← eval e
      pure ()
    | .print keyword e => do
      let v ← present (← eval e)
      write run keyword v.text
      trace (.print keyword.line v)
    | .declare name _ none =>
      modify fun m => { m with scopes := m.scopes.define name (some .nil) }
    | .declare name _ (some e) => do
      let v ← eval e
      modify fun m => { m with scopes := m.scopes.define name v }
    | .block line body => inScope line (execAll run body)
    | .branch _ condition yes none => do
      let v ← eval condition
      if v.truthy then exec run yes else pure ()
    | .branch _ condition yes (some no) => do
      let v ← eval condition
      if v.truthy then exec run yes else exec run no
    | .loop keyword condition body =>
      repeatWhile (test run keyword condition) (exec run body) run.horizon
termination_by structural s

def execAll (run : Run) (body : List Stmt) : Action Unit :=
  match body with
  | [] => pure ()
  | s :: rest => do
    exec run s
    execAll run rest
termination_by structural body

end

end Stmt

/-- What came of a run: how many top-level statements completed, the diagnostics of those that
failed, and why the run ended early if it did. -/
structure RunResult where
  executed : Nat
  diagnostics : List Diagnostic
  error : Option RunError
  deriving DecidableEq, Repr

namespace Machine

/-- Runs top-level statements in order after `executed` that completed and those with
`diagnostics`, in reverse order, that failed. -/
def runFrom (run : Run) (executed : Nat) (diagnostics : List Diagnostic) :
    List Stmt → Machine → RunResult × Machine
  | [], m => (⟨executed, diagnostics.reverse, none⟩, m)
  | s :: rest, m =>
    match m.poll run with
    | (some i, m) => (⟨executed, diagnostics.reverse, some (.interruptedBefore s.line i)⟩, m)
    | (none, m) =>
      match s.exec run m with
      | .ok () m => runFrom run (executed + 1) diagnostics rest m
      | .error .unfinished m => (⟨executed, diagnostics.reverse, some .unfinished⟩, m)
      | .error .crashed m => (⟨executed, diagnostics.reverse, some .crashed⟩, m)
      | .error (.interrupted i) m =>
        (⟨executed, diagnostics.reverse, some (.interrupted i)⟩, m)
      | .error (.fault f) m =>
        let d := f.diagnostic
        let m := m.record (.report d)
        if f.code = .budget then
          (⟨executed, (d :: diagnostics).reverse, some (.budget f)⟩,
            m.record (.trace (.budgetExceeded d.line d.message)))
        else
          runFrom run executed (d :: diagnostics) rest
            ((m.record (.trace (.runtimeError d.line d.code d.message))).record
              (.log (.statementFailed d.line d.code d.message)))

def execute (host : Host) (budget : Budget) (runId : Text) (horizon : Nat) (p : Program)
    (m : Machine) : RunResult × Machine :=
  let run : Run := ⟨host, budget, runId, horizon, m.progress⟩
  let size := p.statements.length
  let m := { m with iterations := 0 }
  let m := m.record (.trace (.runStart p.line size))
  let m := m.record (.log (.runStart runId size))
  let (result, m) := runFrom run 0 [] p.statements m
  let errors := result.diagnostics.length
  let m := m.record (.trace (.runEnd result.executed errors))
  (result, m.record (.log (.runEnd runId result.executed errors)))

def evaluate (e : Expr) (m : Machine) : Except Fault Slot × Machine :=
  match e.eval m.scopes with
  | .ok v scopes => (.ok v, { m with scopes })
  | .error f scopes => (.error f, { m with scopes })

end Machine
end Lox
