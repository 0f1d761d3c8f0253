import Lox.Value.Basic

/-! The words of the language. -/
namespace Lox

/-- The kinds of token, in the order of their numbers. -/
inductive Kind where
  | leftParen | rightParen | leftBrace | rightBrace
  | comma | dot | minus | plus | semicolon | slash | star
  | bang | bangEqual | equal | equalEqual | greater | greaterEqual | less | lessEqual
  | identifier | string | number
  | andWord | classWord | elseWord | falseWord | forWord | funWord | ifWord | nilWord | orWord
  | printWord | returnWord | superWord | thisWord | trueWord | varWord | whileWord
  | eof
  deriving DecidableEq, Repr

namespace Kind

def all : List Kind :=
  [.leftParen, .rightParen, .leftBrace, .rightBrace,
   .comma, .dot, .minus, .plus, .semicolon, .slash, .star,
   .bang, .bangEqual, .equal, .equalEqual, .greater, .greaterEqual, .less, .lessEqual,
   .identifier, .string, .number,
   .andWord, .classWord, .elseWord, .falseWord, .forWord, .funWord, .ifWord, .nilWord, .orWord,
   .printWord, .returnWord, .superWord, .thisWord, .trueWord, .varWord, .whileWord,
   .eof]

def name : Kind → String
  | .leftParen => "LEFT_PAREN"
  | .rightParen => "RIGHT_PAREN"
  | .leftBrace => "LEFT_BRACE"
  | .rightBrace => "RIGHT_BRACE"
  | .comma => "COMMA"
  | .dot => "DOT"
  | .minus => "MINUS"
  | .plus => "PLUS"
  | .semicolon => "SEMICOLON"
  | .slash => "SLASH"
  | .star => "STAR"
  | .bang => "BANG"
  | .bangEqual => "BANG_EQUAL"
  | .equal => "EQUAL"
  | .equalEqual => "EQUAL_EQUAL"
  | .greater => "GREATER"
  | .greaterEqual => "GREATER_EQUAL"
  | .less => "LESS"
  | .lessEqual => "LESS_EQUAL"
  | .identifier => "IDENTIFIER"
  | .string => "STRING"
  | .number => "NUMBER"
  | .andWord => "AND"
  | .classWord => "CLASS"
  | .elseWord => "ELSE"
  | .falseWord => "FALSE"
  | .forWord => "FOR"
  | .funWord => "FUN"
  | .ifWord => "IF"
  | .nilWord => "NIL"
  | .orWord => "OR"
  | .printWord => "PRINT"
  | .returnWord => "RETURN"
  | .superWord => "SUPER"
  | .thisWord => "THIS"
  | .trueWord => "TRUE"
  | .varWord => "VAR"
  | .whileWord => "WHILE"
  | .eof => "EOF"

def ofName? (name : String) : Option Kind := all.find? fun k => k.name == name

def ofNumber? (n : Int) : Option Kind := if 0 ≤ n then all[n.toNat]? else none

/-- The reserved words in alphabetical order, each with its kind. -/
def keywords : List (String × Kind) :=
  [("and", .andWord), ("class", .classWord), ("else", .elseWord), ("false", .falseWord),
   ("for", .forWord), ("fun", .funWord), ("if", .ifWord), ("nil", .nilWord), ("or", .orWord),
   ("print", .printWord), ("return", .returnWord), ("super", .superWord), ("this", .thisWord),
   ("true", .trueWord), ("var", .varWord), ("while", .whileWord)]

def isKeyword (k : Kind) : Bool := keywords.any fun entry => entry.2 == k

/-- The kind of a word: that of the reserved word it spells, or else an identifier. -/
def ofWord (word : Text) : Kind :=
  match keywords.find? fun entry => Text.ofString entry.1 == word with
  | some (_, k) => k
  | none => .identifier

/-- The value that a lexeme of this kind stands for, if the kind is one that carries a value. A
string loses the quotes around it. -/
def literal (k : Kind) (lexeme : Text) : Slot :=
  match k with
  | .string => some (.string ((lexeme.drop 1).dropLast))
  | .number => some (Value.ofNumeral lexeme)
  | .trueWord => some (.bool true)
  | .falseWord => some (.bool false)
  | .nilWord => some .nil
  | _ => none

end Kind

/-- A token: what it is, how it is spelled, the value it stands for, and its line. -/
structure Token where
  kind : Kind
  lexeme : Text
  literal : Slot
  line : Int
  deriving DecidableEq, Repr

namespace Token

/-- A token as it is read from source text. -/
def read (kind : Kind) (lexeme : Text) (line : Int) : Token :=
  ⟨kind, lexeme, kind.literal lexeme, line⟩

def endOfInput (line : Int) : Token := ⟨.eof, [], none, line⟩

/-- A token for display: its kind, and what is particular about a name, string or number. -/
def text (t : Token) : Text :=
  let detailed (detail : Text) : Text := Text.concat [t.kind.name, " (", detail, ")"]
  match t.kind, t.literal with
  | .identifier, _ => detailed t.lexeme
  | .string, some (.string s) => detailed s
  | .number, some v => detailed v.text
  | _, _ => t.kind.name

end Token
end Lox
