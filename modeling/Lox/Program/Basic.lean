import Lox.Token
import Lox.Value.Operation

/-! Programs as trees of statements and expressions. -/
namespace Lox

/-- An expression. Operators and names are kept as their tokens, so that a failure can point at
the source. -/
inductive Expr where
  | literal (value : Slot) (line : Int)
  | name (token : Token)
  | assign (target : Token) (value : Expr)
  /-- Both operands are always evaluated. -/
  | binary (left : Expr) (op : Token) (right : Expr)
  /-- The right operand is evaluated only when the left one does not decide. -/
  | logical (left : Expr) (op : Token) (right : Expr)
  | unary (op : Token) (operand : Expr)
  | group (inner : Expr)
  deriving DecidableEq, Repr

inductive Stmt where
  | expr (e : Expr)
  | print (keyword : Token) (e : Expr)
  | declare (name : Text) (token : Token) (value : Option Expr)
  | block (line : Int) (body : List Stmt)
  | branch (keyword : Token) (condition : Expr) (yes : Stmt) (no : Option Stmt)
  | loop (keyword : Token) (condition : Expr) (body : Stmt)
  deriving Repr

structure Program where
  statements : List Stmt
  deriving Repr

namespace Expr

def line : Expr → Int
  | .literal _ line => line
  | .name token => token.line
  | .assign target _ => target.line
  | .binary _ op _ => op.line
  | .logical _ op _ => op.line
  | .unary op _ => op.line
  | .group inner => inner.line

def kindName : Expr → String
  | .literal .. => "Literal"
  | .name .. => "Variable"
  | .assign .. => "Assign"
  | .binary .. => "Binary"
  | .logical .. => "Logical"
  | .unary .. => "Unary"
  | .group .. => "Grouping"

end Expr

namespace Stmt

def line : Stmt → Int
  | .expr e => e.line
  | .print keyword _ => keyword.line
  | .declare _ token _ => token.line
  | .block line _ => line
  | .branch keyword .. => keyword.line
  | .loop keyword .. => keyword.line

def kindName : Stmt → String
  | .expr .. => "ExprStmt"
  | .print .. => "Print"
  | .declare .. => "VarDecl"
  | .block .. => "Block"
  | .branch .. => "If"
  | .loop .. => "While"

/-- A counting loop in terms of the others: its own scope holds the initial statement and a
conditional loop, whose body ends with the step. A missing condition holds always. -/
def counting (keyword : Token) (start : Option Stmt) (condition step : Option Expr)
    (body : Stmt) : Stmt :=
  let iteration := Stmt.block keyword.line (body :: (step.map Stmt.expr).toList)
  let test := condition.getD (.literal (some (.bool true)) keyword.line)
  .block keyword.line (start.toList ++ [.loop keyword test iteration])

end Stmt

/-- The line of the first statement, or 1 when there is none. -/
def Program.line (p : Program) : Int :=
  match p.statements with
  | [] => 1
  | s :: _ => s.line

/-- The operator that a token of some kind denotes between two operands. -/
def BinaryOp.ofKind? : Kind → Option BinaryOp
  | .plus => some .add
  | .minus => some .sub
  | .star => some .mul
  | .slash => some .div
  | .greater => some .greater
  | .greaterEqual => some .greaterEqual
  | .less => some .less
  | .lessEqual => some .lessEqual
  | .equalEqual => some .equal
  | .bangEqual => some .notEqual
  | _ => none

/-- The operator that a token of some kind denotes before an operand. -/
def UnaryOp.ofKind? : Kind → Option UnaryOp
  | .bang => some .not
  | .minus => some .negate
  | _ => none

end Lox
