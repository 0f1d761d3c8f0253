import Lox.Decimal.Dyadic

/-! The shortest decimal that reads back as a given double. -/
namespace Lox.Decimal

/-- The number `n · 10^k`. -/
structure Digits where
  n : Nat
  k : Int
  deriving DecidableEq, Repr

namespace Digits

/-- The same number without zeros at the end of `n`, by at most `fuel` steps. -/
def strip : (fuel : Nat) → Digits → Digits
  | 0, d => d
  | fuel + 1, d => if d.n ≠ 0 ∧ d.n % 10 = 0 then strip fuel ⟨d.n / 10, d.k + 1⟩ else d

end Digits

/-- The two neighbours of `d` on the grid of multiples of `10^k` that read back as `d`: the lower
one, the upper one, or of both the nearer. Halfway between them the even one is taken. -/
def onGrid (d : Dyadic) (k : Int) : Option Nat :=
  let scale : Nat × Nat := if 0 ≤ k then (1, Nat.pow 10 k.toNat) else (Nat.pow 10 (-k).toNat, 1)
  let num := d.ratio.1 * scale.1
  let den := d.ratio.2 * scale.2
  let low := num / den
  match d.readsBack low k, d.readsBack (low + 1) k with
  | false, false => none
  | true, false => some low
  | false, true => some (low + 1)
  | true, true =>
    let twice := 2 * (num % den)
    if twice < den then some low
    else if den < twice then some (low + 1)
    else if low % 2 = 0 then some low else some (low + 1)

def searchGrids (d : Dyadic) : (tries : Nat) → (k : Int) → Option Digits
  | 0, _ => none
  | tries + 1, k =>
    match onGrid d k with
    | some n => some ⟨n, k⟩
    | none => searchGrids d tries (k - 1)

/-- A `k` with `d < 10^k`, at most a few too large. -/
def scaleOf (d : Dyadic) : Int :=
  ((d.m.log2 : Int) + 1 + d.q) * 30103 / 100000 + 1

/-- The decimal with the fewest digits that reads back as the non-zero number `d`, and of those
the one nearest to it. Seventeen digits always suffice; the exact value stands behind the search. -/
def shortest (d : Dyadic) : Digits :=
  match searchGrids d 24 (scaleOf d) with
  | some digits => digits.strip 400
  | none =>
    let exact : Digits :=
      if 0 ≤ d.q then ⟨d.m * Nat.pow 2 d.q.toNat, 0⟩ else ⟨d.m * Nat.pow 5 (-d.q).toNat, d.q⟩
    exact.strip 400

end Lox.Decimal
