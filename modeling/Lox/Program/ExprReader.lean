import Lox.Program.Basic
import Lox.Program.Reading

/-! Reading expressions. There are six levels of operators between two operands, from the loosest
to the tightest; all of them group to the left. Assignment is looser than any and groups to the
right, and the operators before a single operand are tighter than any. -/
namespace Lox

inductive Level where
  | or | and | equality | comparison | term | factor
  deriving DecidableEq, Repr

namespace Level

def operators : Level → List Kind
  | .or => [.orWord]
  | .and => [.andWord]
  | .equality => [.equalEqual, .bangEqual]
  | .comparison => [.greater, .greaterEqual, .less, .lessEqual]
  | .term => [.plus, .minus]
  | .factor => [.star, .slash]

/-- The next tighter level, if there is one. -/
def tighter : Level → Option Level
  | .or => some .and
  | .and => some .equality
  | .equality => some .comparison
  | .comparison => some .term
  | .term => some .factor
  | .factor => none

/-- How many levels a level is away from single operands, counting itself. -/
def height : Level → Nat
  | .or => 6
  | .and => 5
  | .equality => 4
  | .comparison => 3
  | .term => 2
  | .factor => 1

/-- The expression that an operator of this level forms with its operands. -/
def node (level : Level) (left : Expr) (op : Token) (right : Expr) : Expr :=
  match level with
  | .or | .and => .logical left op right
  | _ => .binary left op right

theorem height_pos (level : Level) : 0 < level.height := by cases level <;> decide

theorem height_tighter {level next : Level} (h : level.tighter = some next) :
    next.height + 1 = level.height := by
  cases level <;> simp [tighter] at h <;> subst h <;> rfl

end Level

def unaryOperators : List Kind := [.bang, .minus]

def literalKinds : List Kind := [.number, .string, .trueWord, .falseWord, .nilWord]

namespace Expr

mutual

/-- An assignment, or anything tighter. What stands left of an equals sign is read as an
expression first and must then be a bare name. -/
def read (ts : List Token) : Reading Expr ts.length :=
  match readLevel .or ts with
  | .failed problem rest h => .failed problem rest h
  | .done left [] h => .done left [] h
  | .done left (t :: rest) h =>
    if t.kind = .equal then
      match left with
      | .name target =>
        match read rest with
        | .failed problem rest' h' => .failed problem rest' (by simp at h; omega)
        | .done value rest' h' => .done (.assign target value) rest' (by simp at h; omega)
      | _ => .failed ⟨.target, some t⟩ rest (by simp at h; omega)
    else .done left (t :: rest) h
termination_by ts.length * 20 + 19
decreasing_by all_goals simp_all [Level.height]; try omega

/-- Operands of a level joined by its operators. -/
def readLevel (level : Level) (ts : List Token) : Reading Expr ts.length :=
  match readOperand level ts with
  | .failed problem rest h => .failed problem rest h
  | .done left rest h => (readChain level left rest).weaken h
termination_by ts.length * 20 + level.height * 2 + 2
decreasing_by all_goals omega

def readOperand (level : Level) (ts : List Token) : Reading Expr ts.length :=
  match _h : level.tighter with
  | some next => readLevel next ts
  | none => readUnary ts
termination_by ts.length * 20 + level.height * 2 + 1
decreasing_by
  · have := Level.height_tighter _h; omega
  · have := level.height_pos; omega

/-- What follows the operand `left` at its level. -/
def readChain (level : Level) (left : Expr) (ts : List Token) : Reading Expr (ts.length + 1) :=
  match ts with
  | [] => .done left [] Reading.length_nil_lt
  | op :: rest =>
    if op.kind ∈ level.operators then
      match readOperand level rest with
      | .failed problem rest' h => .failed problem rest' (Reading.length_le_of_tail op h)
      | .done right rest' h =>
        (readChain level (level.node left op right) rest').weaken
          (Reading.succ_length_le_of_tail op h)
    else .done left (op :: rest) (Reading.length_cons_lt op rest)
termination_by ts.length * 20 + level.height * 2
decreasing_by all_goals simp only [List.length_cons]; omega

/-- Operators before an operand, then the operand. -/
def readUnary (ts : List Token) : Reading Expr ts.length :=
  match ts with
  | [] => readPrimary []
  | op :: rest =>
    if op.kind ∈ unaryOperators then
      match readUnary rest with
      | .failed problem rest' h => .failed problem rest' (by simp; omega)
      | .done operand rest' h => .done (.unary op operand) rest' (by simp; omega)
    else readPrimary (op :: rest)
termination_by ts.length * 20 + 1
decreasing_by all_goals simp only [List.length_cons, List.length_nil]; omega

/-- A literal, a name, or an expression in parentheses. A literal token without a value stands
for nil. -/
def readPrimary (ts : List Token) : Reading Expr ts.length :=
  match ts with
  | [] => Reading.refuse .expression []
  | t :: rest =>
    if t.kind ∈ literalKinds then
      .done (.literal (some (t.literal.getD .nil)) t.line) rest (Nat.lt_succ_self _)
    else if t.kind = .identifier then .done (.name t) rest (Nat.lt_succ_self _)
    else if t.kind = .leftParen then
      match read rest with
      | .failed problem rest' h => .failed problem rest' (by simp; omega)
      | .done inner rest' h =>
        match Reading.token .rightParen (.delimiter .rightParen "expression") rest' with
        | .failed problem rest'' h' => .failed problem rest'' (by simp; omega)
        | .done _ rest'' h' => .done (.group inner) rest'' (by simp; omega)
    else Reading.refuse .expression (t :: rest)
termination_by ts.length * 20
decreasing_by all_goals simp only [List.length_cons]; omega

end

end Expr
end Lox
