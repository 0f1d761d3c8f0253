import Lox.Clock.Instant
import Lox.Decimal.Dyadic
import Lox.Decimal.Numeral

/-! What a plain scalar stands for. Most are strings, but some spellings are taken for a number, a
truth value, a date or nothing at all. -/
namespace Lox.Yaml

inductive Scalar where
  | null
  | bool (b : Bool)
  | int (n : Int)
  | float (x : Float)
  | timestamp
  | str

namespace Scalar

def tag : Scalar → String
  | .null => "!!null"
  | .bool _ => "!!bool"
  | .int _ => "!!int"
  | .float _ => "!!float"
  | .timestamp => "!!timestamp"
  | .str => "!!str"

/-- Spellings with a meaning of their own. -/
def named : List (String × Scalar) :=
  [("", .null), ("~", .null), ("null", .null), ("Null", .null), ("NULL", .null),
   ("true", .bool true), ("True", .bool true), ("TRUE", .bool true),
   ("false", .bool false), ("False", .bool false), ("FALSE", .bool false),
   (".nan", .float (0.0 / 0.0)), (".NaN", .float (0.0 / 0.0)), (".NAN", .float (0.0 / 0.0)),
   (".inf", .float (1.0 / 0.0)), (".Inf", .float (1.0 / 0.0)), (".INF", .float (1.0 / 0.0)),
   ("+.inf", .float (1.0 / 0.0)), ("+.Inf", .float (1.0 / 0.0)), ("+.INF", .float (1.0 / 0.0)),
   ("-.inf", .float (-1.0 / 0.0)), ("-.Inf", .float (-1.0 / 0.0)), ("-.INF", .float (-1.0 / 0.0))]

def digit? (b : UInt8) : Option Nat :=
  if 48 ≤ b && b ≤ 57 then some (b.toNat - 48)
  else if 97 ≤ b && b ≤ 102 then some (b.toNat - 87)
  else if 65 ≤ b && b ≤ 70 then some (b.toNat - 55)
  else none

/-- The number that digits of some base spell. There may be none. -/
def inBase (base : Nat) (digits : Text) : Option Nat :=
  digits.foldlM (fun n b => do
    let d ← digit? b
    if d < base then some (n * base + d) else none) 0

/-- A natural number. The prefixes `0b`, `0o` and `0x` give the base, and so does a zero in front of
other digits, which means octal. -/
def natural? : Text → Option Nat
  | [] => none
  | 48 :: b :: c :: rest =>
    if b = 98 ∨ b = 66 then inBase 2 (c :: rest)
    else if b = 111 ∨ b = 79 then inBase 8 (c :: rest)
    else if b = 120 ∨ b = 88 then inBase 16 (c :: rest)
    else inBase 8 (b :: c :: rest)
  | 48 :: rest => inBase 8 rest
  | t => inBase 10 t

/-- A whole number that fits 64 bits, signed, or unsigned if it has no sign. -/
def integer? (t : Text) : Option Int :=
  let (negative, digits) := Decimal.splitSign t
  match natural? digits with
  | none => none
  | some n =>
    let z : Int := if negative then -n else n
    if -(Decimal.int64Bound : Int) ≤ z ∧ z < Decimal.int64Bound then some z
    else if digits = t ∧ n < 2 * Decimal.int64Bound then some n
    else none

/-- Whether a scalar is written as a date, alone or with a time. -/
def isTimestamp (t : Text) : Bool :=
  match Clock.date Clock.oneOrTwo t with
  | none => false
  | some (_, []) => true
  | some (_, mark :: rest) =>
    if mark = 84 ∨ mark = 116 then
      match Clock.timeOfDay Clock.oneOrTwo rest with
      | some (_, rest) => (Clock.zone rest).any fun z => z.2 == []
      | none => false
    else if mark = 32 then
      (Clock.timeOfDay Clock.oneOrTwo rest).any fun z => z.2 == []
    else false

def ofPlain (t : Text) : Scalar :=
  match named.find? fun entry => Text.ofString entry.1 == t with
  | some (_, s) => s
  | none =>
    match t with
    | [] => .null
    | b :: _ =>
      if b = 46 then
        match Decimal.read? t with
        | some x => .float x
        | none => .str
      else if Decimal.isDigit b ∨ b = 43 ∨ b = 45 then
        let bare := t.filter (· != 95)
        if isTimestamp t then .timestamp
        else match integer? bare with
          | some n => .int n
          | none =>
            match Decimal.read? bare with
            | some x => .float x
            | none => .str
      else .str

/-- A double as a whole number of 64 bits, rounded toward zero. Numbers out of range give the
least one, except that those above are refused, as is what is no number. -/
def toInt64? (x : Float) : Option Int64 :=
  if x.isNaN then none
  else if x.isInf then if Decimal.isNegative x then some Int64.minValue else none
  else
    let n := (Decimal.Dyadic.ofFloat x).floor
    let z : Int := if Decimal.isNegative x then -n else n
    if Decimal.int64Bound < z then none
    else if z < -(Decimal.int64Bound : Int) ∨ z = Decimal.int64Bound then some Int64.minValue
    else some (Int64.ofInt z)

end Scalar
end Lox.Yaml
