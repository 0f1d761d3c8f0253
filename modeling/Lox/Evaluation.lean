import Lox.Fault
import Lox.Program.Basic
import Lox.Scope

/-! The value of an expression. Evaluation may assign to bound names, and an assignment made before
a failure stays made. -/
namespace Lox

/-- A computation over the scopes that yields a value or fails at a token. -/
abbrev Evaluation := EStateM Fault Chain

namespace Evaluation

def fail {α : Type} (cause : Cause) (token : Token) : Evaluation α := throw ⟨cause, token⟩

/-- The result of an operator, its refusal blamed on the operator's token. -/
def ofOperator (op : Token) : Except OperandError Value → Evaluation Slot
  | .ok v => pure (some v)
  | .error e => fail (.operands e) op

def lookup (name : Token) : Evaluation Slot := do
  match (← get).find? name.lexeme with
  | some v => pure v
  | none => fail .undefined name

def assign (name : Token) (value : Slot) : Evaluation Unit := do
  match (← get).assign? name.lexeme value with
  | some scopes => set scopes
  | none => fail .undefined name

end Evaluation

/-- Whether the left operand of a logical operator decides the result; nothing if the token is no
logical operator. -/
def Kind.decides? (k : Kind) (left : Slot) : Option Bool :=
  match k with
  | .orWord => some left.truthy
  | .andWord => some !left.truthy
  | _ => none

/-- Evaluates an expression. Operands are evaluated from left to right and before the operator is
looked at; a logical operator yields the operand that decides. -/
def Expr.eval : Expr → Evaluation Slot
  | .literal value _ => pure value
  | .name token => Evaluation.lookup token
  | .assign target value => do
    let v ← value.eval
    Evaluation.assign target v
    pure v
  | .binary left op right => do
    let a ← left.eval
    let b ← right.eval
    match BinaryOp.ofKind? op.kind with
    | some f => Evaluation.ofOperator op (f.apply a b)
    | none => Evaluation.fail .operator op
  | .logical left op right => do
    let a ← left.eval
    match op.kind.decides? a with
    | some true => pure a
    | some false => right.eval
    | none => Evaluation.fail .operator op
  | .unary op operand => do
    let a ← operand.eval
    match UnaryOp.ofKind? op.kind with
    | some f => Evaluation.ofOperator op (f.apply a)
    | none => Evaluation.fail .operator op
  | .group inner => inner.eval

end Lox
