import Lox.Value.Basic

/-! The operators on values. -/
namespace Lox

/-- Why an operator refuses its operands. -/
inductive OperandError where
  /-- Negation of something that is no number. -/
  | notNumber
  /-- Arithmetic or comparison with an operand that is no number. -/
  | notNumbers
  /-- Addition of operands that are neither two numbers nor two strings. -/
  | mismatch
  deriving DecidableEq, Repr

namespace OperandError

def message : OperandError → String
  | .notNumber => "operand must be a number"
  | .notNumbers => "operands must be numbers"
  | .mismatch => "operands must be both numbers or strings"

end OperandError

/-- The operators between two operands that are both evaluated first. -/
inductive BinaryOp where
  | add | sub | mul | div
  | less | lessEqual | greater | greaterEqual
  | equal | notEqual
  deriving DecidableEq, Repr

inductive UnaryOp where
  | not | negate
  deriving DecidableEq, Repr

namespace Slot

/-- Values are equal when they are of the same type and hold the same. An absent value equals
nothing, and a number that is not a number equals nothing either. -/
def equal : Slot → Slot → Bool
  | some .nil, some .nil => true
  | some (.bool a), some (.bool b) => a == b
  | some (.number x), some (.number y) => x == y
  | some (.string s), some (.string t) => s == t
  | _, _ => false

def not (v : Slot) : Value := .bool (!truthy v)

def negate : Slot → Except OperandError Value
  | some (.number x) => .ok (.number (-x))
  | _ => .error .notNumber

/-- The sum of two numbers, or two strings one after the other. -/
def add : Slot → Slot → Except OperandError Value
  | some (.number x), some (.number y) => .ok (.number (x + y))
  | some (.string s), some (.string t) => .ok (.string (s ++ t))
  | _, _ => .error .mismatch

/-- An operation on numbers. Division by zero is no error: it gives an infinity or no number. -/
def arithmetic (f : Float → Float → Float) : Slot → Slot → Except OperandError Value
  | some (.number x), some (.number y) => .ok (.number (f x y))
  | _, _ => .error .notNumbers

def comparison (f : Float → Float → Bool) : Slot → Slot → Except OperandError Value
  | some (.number x), some (.number y) => .ok (.bool (f x y))
  | _, _ => .error .notNumbers

end Slot

def BinaryOp.apply : BinaryOp → Slot → Slot → Except OperandError Value
  | .add => Slot.add
  | .sub => Slot.arithmetic (· - ·)
  | .mul => Slot.arithmetic (· * ·)
  | .div => Slot.arithmetic (· / ·)
  | .less => Slot.comparison fun x y => decide (x < y)
  | .lessEqual => Slot.comparison fun x y => decide (x ≤ y)
  | .greater => Slot.comparison fun x y => decide (y < x)
  | .greaterEqual => Slot.comparison fun x y => decide (y ≤ x)
  | .equal => fun a b => .ok (.bool (Slot.equal a b))
  | .notEqual => fun a b => .ok (.bool (!Slot.equal a b))

def UnaryOp.apply : UnaryOp → Slot → Except OperandError Value
  | .not, v => .ok (Slot.not v)
  | .negate, v => Slot.negate v

end Lox
