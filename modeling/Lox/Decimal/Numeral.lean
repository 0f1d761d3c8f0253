import Lox.Text.Basic

/-! Decimal numerals and the doubles they stand for. -/
namespace Lox.Decimal

def isDigit (b : UInt8) : Bool := 48 ≤ b && b ≤ 57

def digitsValue (digits : Text) : Nat := digits.foldl (fun n b => n * 10 + (b.toNat - 48)) 0

/-- The least whole number that is too great for 64 bits with a sign. -/
def int64Bound : Nat := Nat.pow 2 63

/-- Whether a minus sign stands at the front, and what follows the sign if there is one. -/
def splitSign : Text → Bool × Text
  | 45 :: t => (true, t)
  | 43 :: t => (false, t)
  | t => (false, t)

/-- A numeral with a sign, a point and an exponent: `digits · 10^scale`, or less than zero. -/
structure Numeral where
  negative : Bool
  digits : Text
  scale : Int
  deriving DecidableEq, Repr

namespace Numeral

/-- The numeral that a text spells. It has a digit before or after its point, and an exponent has
one too. -/
def ofText? (t : Text) : Option Numeral :=
  let (negative, t) := splitSign t
  let whole := t.takeWhile isDigit
  let t := t.dropWhile isDigit
  let (fraction, t) : Text × Text := match t with
    | 46 :: rest => (rest.takeWhile isDigit, rest.dropWhile isDigit)
    | t => ([], t)
  let places : Int := fraction.length
  if whole = [] ∧ fraction = [] then none
  else match t with
    | [] => some ⟨negative, whole ++ fraction, -places⟩
    | e :: t =>
      let (minus, exponent) := splitSign t
      if (e = 101 ∨ e = 69) ∧ exponent ≠ [] ∧ exponent.all isDigit then
        let n : Int := digitsValue exponent
        some ⟨negative, whole ++ fraction, (if minus then -n else n) - places⟩
      else none

/-- The nearest double, unless the number is too large for any. A number far below the least double
is zero, whatever its digits. -/
def toFloat? (n : Numeral) : Option Float :=
  let digits := n.digits.dropWhile (· == 48)
  let size := n.scale + digits.length
  let x :=
    if digits = [] ∨ size < -400 then 0.0
    else if 400 < size then 1.0 / 0.0
    else if 0 ≤ n.scale then Float.ofScientific (digitsValue digits) false n.scale.toNat
    else Float.ofScientific (digitsValue digits) true (-n.scale).toNat
  if x.isInf then none else some (if n.negative then -x else x)

end Numeral

/-- The double nearest to the number that a text spells, if it spells one that is not too large. -/
def read? (t : Text) : Option Float := (Numeral.ofText? t).bind Numeral.toFloat?

end Lox.Decimal
