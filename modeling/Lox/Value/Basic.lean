import Lox.Decimal.Layout
import Lox.Decimal.Numeral
import Lox.Json.Basic

/-! The values a program computes with, their canonical text, and their JSON form as traces and token
listings show it. -/
namespace Lox

inductive Value where
  | nil
  | bool (b : Bool)
  | number (x : Float)
  | string (s : Text)
  deriving DecidableEq, Repr

/-- What a name is bound to or an expression yields. A tree built by hand may hold a literal
without a value, and that absence then travels through evaluation. -/
abbrev Slot := Option Value

namespace Value

/-- A number as the shortest decimal that reads back, never with an exponent. -/
def numberText (x : Float) : Text :=
  if x.isNaN then "NaN"
  else if x.isInf then if Decimal.isNegative x then "-inf" else "inf"
  else
    let magnitude := Decimal.Dyadic.ofFloat x
    let sign : Text := if Decimal.isNegative x then "-" else ""
    if magnitude.m = 0 then Text.concat [sign, "0"]
    else sign ++ Decimal.positional (Decimal.shortest magnitude)

/-- The canonical text of a value. A string stands between quotes, with nothing escaped. -/
def text : Value → Text
  | .nil => "nil"
  | .bool true => "true"
  | .bool false => "false"
  | .number x => numberText x
  | .string s => Text.quote :: (s ++ [Text.quote])

def typeName : Value → String
  | .nil => "nil"
  | .bool _ => "boolean"
  | .number _ => "number"
  | .string _ => "string"

/-- The number that a decimal numeral stands for, rounded to the nearest double. The numeral
consists of digits with at most one point among them. -/
def ofNumeral (numeral : Text) : Value :=
  let whole := numeral.takeWhile (· != 46)
  let fraction := (numeral.dropWhile (· != 46)).drop 1
  .number (Float.ofScientific (Decimal.digitsValue (whole ++ fraction)) true fraction.length)

/-- A whole number below `2^53` in size is written as an integer, any other finite number as a
decimal, and a number that JSON cannot express as its canonical text in a string. -/
def toJson : Value → Json
  | .nil => .null
  | .bool b => .bool b
  | .number x =>
    if x.isNaN || x.isInf then .string (numberText x)
    else
      let magnitude := Decimal.Dyadic.ofFloat x
      let n := magnitude.floor
      if magnitude.isWhole && n < Nat.pow 2 53 then
        .int (if Decimal.isNegative x then -(n : Int) else n)
      else .float x
  | .string s => .string s

end Value

namespace Slot

/-- The name of the type, `unknown` for an absent value. -/
def typeName : Slot → String
  | none => "unknown"
  | some v => v.typeName

/-- Only nil, false and an absent value count as false. -/
def truthy : Slot → Bool
  | none => false
  | some .nil => false
  | some (.bool b) => b
  | some _ => true

/-- An absent value is written as null. -/
def toJson : Slot → Json
  | none => .null
  | some v => v.toJson

end Slot
end Lox
