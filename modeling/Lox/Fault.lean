import Lox.Diagnostic
import Lox.Value.Operation

/-! Why a statement or a run ends early. -/
namespace Lox

inductive Cause where
  | undefined
  | operands (e : OperandError)
  /-- An operator token that denotes no operator. -/
  | operator
  /-- More loop iterations than the budget allows. -/
  | iterations (allowed : Int)
  /-- More time than the budget allows. -/
  | time (milliseconds : Int)
  /-- The output sink refuses a write. -/
  | write (reason : Text)
  deriving DecidableEq, Repr

structure Fault where
  cause : Cause
  token : Token
  deriving DecidableEq, Repr

namespace Fault

def code (f : Fault) : Code :=
  match f.cause with
  | .undefined => .undefined
  | .operands _ => .type
  | .operator => .type
  | .iterations _ => .budget
  | .time _ => .budget
  | .write _ => .io

def message (f : Fault) : Text :=
  match f.cause with
  | .undefined => "undefined variable"
  | .operands e => e.message
  | .operator => Text.concat ["unknown operator ", Text.quoted f.token.lexeme]
  | .iterations allowed =>
    Text.concat ["iteration budget exceeded (max ", Text.ofInt allowed, ")"]
  | .time milliseconds =>
    Text.concat ["time budget exceeded (", Text.ofInt milliseconds, "ms)"]
  | .write reason => Text.concat ["write failed: ", reason]

def diagnostic (f : Fault) : Diagnostic := .atToken f.code f.message f.token

end Fault

inductive Interrupt where
  | canceled
  | deadline
  deriving DecidableEq, Repr

namespace Interrupt

def message : Interrupt → String
  | .canceled => "context canceled"
  | .deadline => "context deadline exceeded"

end Interrupt

inductive Stop where
  | fault (f : Fault)
  | interrupted (i : Interrupt)
  /-- An absent value was to be printed. There is no text for it, and the program comes down. -/
  | crashed
  /-- A loop went on for longer than the run was followed. -/
  | unfinished
  deriving DecidableEq, Repr

/-- Why a run ended before its last statement was attempted. -/
inductive RunError where
  /-- The budget ran out. -/
  | budget (f : Fault)
  /-- Interrupted before the statement on a line. -/
  | interruptedBefore (line : Int) (i : Interrupt)
  /-- Interrupted inside a loop. -/
  | interrupted (i : Interrupt)
  | crashed
  | unfinished
  deriving DecidableEq, Repr

namespace RunError

def message : RunError → Text
  | .budget f => f.message
  | .interruptedBefore line i =>
    Text.concat ["run interrupted before line ", Text.ofInt line, ": ", i.message]
  | .interrupted i => i.message
  | .crashed => "runtime error: invalid memory address or nil pointer dereference"
  | .unfinished => "run not finished"

end RunError
end Lox
