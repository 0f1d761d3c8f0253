import Lox.Program.Basic

/-! The canonical source text of a program: two blanks for each level of nesting, one statement on
a line, parentheses where the source had them or where the tree needs them. -/
namespace Lox

/-- How tightly an operator between two operands binds; an operator that is none binds loosest. -/
def Kind.binding : Kind → Nat
  | .orWord => 1
  | .andWord => 2
  | .equalEqual | .bangEqual => 3
  | .greater | .greaterEqual | .less | .lessEqual => 4
  | .plus | .minus => 5
  | .star | .slash => 6
  | _ => 0

namespace Expr

/-- How tightly an expression holds together as an operand. Assignment is loosest, and what is no
operator between two operands is tightest. -/
def binding : Expr → Nat
  | .assign .. => 0
  | .binary _ op _ => op.kind.binding
  | .logical _ op _ => op.kind.binding
  | _ => 7

/-- A value as source text. A number that no numeral can spell is written as the division that
gives it. There is no text for an absent value. -/
def literalText : Slot → Text
  | none => []
  | some (.number x) =>
    if x.isNaN then "(0 / 0)"
    else if x.isInf then if Decimal.isNegative x then "(-1 / 0)" else "(1 / 0)"
    else Value.numberText x
  | some v => v.text

def parenthesized (needed : Bool) (text : Text) : Text :=
  if needed then Text.concat ["(", text, ")"] else text

/-- An expression as source text. An operand that binds looser than its operator, or on the right
no tighter, is put in parentheses. -/
def format : Expr → Text
  | .literal value _ => literalText value
  | .name token => token.lexeme
  | .assign target value => Text.concat [target.lexeme, " = ", value.format]
  | .group inner => Text.concat ["(", inner.format, ")"]
  | .binary left op right => Text.concat
    [parenthesized (left.binding < op.kind.binding) left.format, " ", op.lexeme, " ",
     parenthesized (right.binding ≤ op.kind.binding) right.format]
  | .logical left op right => Text.concat
    [parenthesized (left.binding < op.kind.binding) left.format, " ", op.lexeme, " ",
     parenthesized (right.binding ≤ op.kind.binding) right.format]
  | .unary op operand => op.lexeme ++ parenthesized (operand.binding < 7) operand.format

end Expr

namespace Stmt

def indent (depth : Nat) : Text := Text.times depth "  "

/-- Whether a statement goes on the line of the condition or `else` before it: a block does, and
after `else` so does a further condition. Anything else has a line of its own, one level deeper. -/
def staysOnLine (afterElse : Bool) : Stmt → Bool
  | .block .. => true
  | .branch .. => afterElse
  | _ => false

/-- What stands between a condition or `else` and the statement that it governs. -/
def lead (afterElse : Bool) (depth : Nat) (s : Stmt) : Text :=
  if s.staysOnLine afterElse then " " else Text.concat ["\n", indent (depth + 1)]

/-- The depth of the statement that a condition or `else` at `depth` governs. -/
def governedDepth (afterElse : Bool) (depth : Nat) (s : Stmt) : Nat :=
  if s.staysOnLine afterElse then depth else depth + 1

/-- The word `else` after the branch `yes`: on the line of a closing brace, else on its own. -/
def elseText (depth : Nat) (yes : Stmt) : Text :=
  if yes.staysOnLine false then " else" else Text.concat ["\n", indent depth, "else"]

mutual

/-- A statement as source text, without the blanks before it. -/
def format (depth : Nat) : Stmt → Text
  | .expr e => Text.concat [e.format, ";"]
  | .print _ e => Text.concat ["print ", e.format, ";"]
  | .declare name _ none => Text.concat ["var ", name, ";"]
  | .declare name _ (some value) => Text.concat ["var ", name, " = ", value.format, ";"]
  | .block _ [] => "\x7b\x7d"
  | .block _ (s :: rest) => Text.concat
    ["\x7b\n", Text.join "\n" (formatLines (depth + 1) (s :: rest)), "\n", indent depth, "\x7d"]
  | .branch _ condition yes none => Text.concat
    ["if (", condition.format, ")",
     lead false depth yes, format (governedDepth false depth yes) yes]
  | .branch _ condition yes (some no) => Text.concat
    ["if (", condition.format, ")",
     lead false depth yes, format (governedDepth false depth yes) yes,
     elseText depth yes, lead true depth no, format (governedDepth true depth no) no]
  | .loop _ condition body => Text.concat
    ["while (", condition.format, ")",
     lead false depth body, format (governedDepth false depth body) body]

/-- Each statement with the blanks before it. -/
def formatLines (depth : Nat) : List Stmt → List Text
  | [] => []
  | s :: rest => (indent depth ++ format depth s) :: formatLines depth rest

end

end Stmt

/-- A program as source text, empty for the empty program. -/
def Program.format (p : Program) : Text :=
  if p.statements.isEmpty then []
  else Text.concat [Text.join "\n" (Stmt.formatLines 0 p.statements), "\n"]

/-- Whether a line holds a comment, given whether it begins inside a string. -/
def commentIn : (inString : Bool) → (line : Text) → Bool
  | _, [] => false
  | inString, b :: rest =>
    let inside := if b = Text.quote then !inString else inString
    (!inside && b == 47 && rest.head? == some 47) || commentIn inside rest

/-- Whether a source has a comment outside its strings. A string never goes beyond its line. -/
def hasComments (source : Text) : Bool := (Text.lines source).any (commentIn false)

end Lox
