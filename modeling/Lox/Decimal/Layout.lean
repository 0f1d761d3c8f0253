import Lox.Decimal.Shortest
import Lox.Text.Basic

/-! Layouts of a decimal: positional, with an exponent, or with a set number of places. -/
namespace Lox.Decimal

/-- The digits of `n · 10^k` written positionally, without an exponent. -/
def positional (d : Digits) : Text :=
  let digits := Text.ofNat d.n
  if 0 ≤ d.k then
    if d.n = 0 then "0" else digits ++ List.replicate d.k.toNat 48
  else
    let places := (-d.k).toNat
    if places < digits.length then
      Text.concat [digits.take (digits.length - places), ".", digits.drop (digits.length - places)]
    else Text.concat ["0.", List.replicate (places - digits.length) 48, digits]

/-- The digits of `n · 10^k` with one digit before the point and a signed exponent. -/
def scientific (d : Digits) : Text :=
  let digits := Text.ofNat d.n
  let exponent := d.k + ((digits.length : Int) - 1)
  let fraction : Text := if digits.length ≤ 1 then [] else Text.concat [".", digits.drop 1]
  let sign : Text := if exponent < 0 then "-" else "+"
  Text.concat [digits.take 1, fraction, "e", sign, Text.ofNat exponent.natAbs]

/-- `num / den` rounded to the nearest natural number, halves to the even one. -/
def roundDiv (num den : Nat) : Nat :=
  let low := num / den
  let twice := 2 * (num % den)
  if twice < den ∨ (twice = den ∧ low % 2 = 0) then low else low + 1

def fixed (places : Nat) (x : Float) : Text :=
  let d := Dyadic.ofFloat x
  let n := roundDiv (d.ratio.1 * Nat.pow 10 places) d.ratio.2
  let digits := Text.ofNat n
  let padded := List.replicate (places + 1 - digits.length) 48 ++ digits
  let sign : Text := if isNegative x then "-" else ""
  Text.concat
    [sign, padded.take (padded.length - places), ".", padded.drop (padded.length - places)]

end Lox.Decimal
