import Lox.Diagnostic
import Lox.Token.Lexer

/-! Reading a phrase off the front of a list of tokens. -/
namespace Lox

/-- What the grammar misses or refuses at some token. -/
inductive Complaint where
  | expression
  | variableName
  /-- A delimiter that has to stand after something. -/
  | delimiter (kind : Kind) (after : String)
  /-- The left side of an assignment is no bare name. -/
  | target
  deriving DecidableEq, Repr

namespace Complaint

def spelling : Kind → String
  | .leftParen => "'('"
  | .rightParen => "')'"
  | .rightBrace => "'\x7d'"
  | .semicolon => "';'"
  | kind => kind.name

def message : Complaint → Text
  | .expression => "expected expression"
  | .variableName => "expected a variable name"
  | .delimiter kind after => Text.concat ["expected ", spelling kind, " after ", after]
  | .target => "invalid assignment target"

end Complaint

/-- A complaint about a token, or about the end of the input when there is none. -/
structure Problem where
  complaint : Complaint
  token : Option Token
  deriving DecidableEq, Repr

/-- The problem as a diagnostic, in an input that ends on line `last`. -/
def Problem.diagnostic (last : Int) (p : Problem) : Diagnostic :=
  match p.token with
  | some t => Diagnostic.atToken .parse p.complaint.message t
  | none => ⟨.parse, p.complaint.message, last, .endOfInput⟩

/-- The outcome of reading a phrase where fewer than `bound` tokens may be left: the phrase and
the tokens after it, or a problem and the tokens from where reading stopped. -/
inductive Reading (α : Type) (bound : Nat) where
  | done (phrase : α) (rest : List Token) (fewer : rest.length < bound)
  | failed (problem : Problem) (rest : List Token) (atMost : rest.length ≤ bound)

namespace Reading

theorem length_nil_lt : ([] : List Token).length < ([] : List Token).length + 1 := Nat.lt_succ_self _

theorem length_tail_lt (t : Token) (rest : List Token) : rest.length < (t :: rest).length :=
  Nat.lt_succ_self _

theorem length_cons_lt (t : Token) (rest : List Token) :
    (t :: rest).length < (t :: rest).length + 1 :=
  Nat.lt_succ_self _

theorem succ_length_le_of_tail (t : Token) {rest rest' : List Token}
    (h : rest'.length < rest.length) : rest'.length + 1 ≤ (t :: rest).length + 1 :=
  Nat.le_add_right_of_le (Nat.le_succ_of_le h)

theorem length_le_of_tail (t : Token) {rest rest' : List Token} (h : rest'.length ≤ rest.length) :
    rest'.length ≤ (t :: rest).length + 1 :=
  Nat.le_add_right_of_le (Nat.le_succ_of_le h)

def weaken {α : Type} {m n : Nat} (h : m ≤ n) : Reading α m → Reading α n
  | .done phrase rest fewer => .done phrase rest (Nat.lt_of_lt_of_le fewer h)
  | .failed problem rest atMost => .failed problem rest (Nat.le_trans atMost h)

/-- Reads on after a phrase. -/
def andThen {α β : Type} {n : Nat} (r : Reading α n)
    (next : α → (rest : List Token) → rest.length < n → Reading β rest.length) : Reading β n :=
  match r with
  | .done phrase rest fewer => (next phrase rest fewer).weaken (Nat.le_of_lt fewer)
  | .failed problem rest atMost => .failed problem rest atMost

/-- Reads on after a phrase, or ends where the phrase ends. -/
def andPerhaps {α β : Type} {n : Nat} (r : Reading α n)
    (next : α → (rest : List Token) → rest.length < n → Reading β (rest.length + 1)) :
    Reading β n :=
  match r with
  | .done phrase rest fewer => (next phrase rest fewer).weaken fewer
  | .failed problem rest atMost => .failed problem rest atMost

def map {α β : Type} {n : Nat} (f : α → β) : Reading α n → Reading β n
  | .done phrase rest fewer => .done (f phrase) rest fewer
  | .failed problem rest atMost => .failed problem rest atMost

/-- The kind of the first token, that of the end when there is none. -/
def ahead : List Token → Kind
  | [] => .eof
  | t :: _ => t.kind

def refuse {α : Type} (complaint : Complaint) (ts : List Token) : Reading α ts.length :=
  .failed ⟨complaint, ts.head?⟩ ts (Nat.le_refl _)

def token (kind : Kind) (complaint : Complaint) (ts : List Token) : Reading Token ts.length :=
  match ts with
  | [] => refuse complaint []
  | t :: rest =>
    if t.kind = kind then .done t rest (Nat.lt_succ_self _) else refuse complaint (t :: rest)

end Reading
end Lox
