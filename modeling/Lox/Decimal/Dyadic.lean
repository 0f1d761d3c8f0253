/-! The magnitude of a finite double as an exact number `m · 2^q`. -/
namespace Lox.Decimal

/-- The number `m · 2^q`. -/
structure Dyadic where
  m : Nat
  q : Int
  deriving DecidableEq, Repr

namespace Dyadic

/-- The magnitude of a finite double, read off its bits. -/
def ofFloat (x : Float) : Dyadic :=
  let bits := x.toBits.toNat
  let fraction : Nat := bits % Nat.pow 2 52
  let exponent : Nat := bits / Nat.pow 2 52 % Nat.pow 2 11
  if exponent = 0 then ⟨fraction, -1074⟩ else ⟨Nat.pow 2 52 + fraction, (exponent : Int) - 1075⟩

def ratio (d : Dyadic) : Nat × Nat :=
  if 0 ≤ d.q then (d.m * Nat.pow 2 d.q.toNat, 1) else (d.m, Nat.pow 2 (-d.q).toNat)

def floor (d : Dyadic) : Nat := d.ratio.1 / d.ratio.2

def isWhole (d : Dyadic) : Bool := d.ratio.1 % d.ratio.2 == 0

/-- The double nearest below lies at half the distance of the one above, as it does below a power
of two. -/
def narrowBelow (d : Dyadic) : Bool := d.m == Nat.pow 2 52 && -1074 < d.q

/-- Whether the decimal `n · 10^k` rounds to this double: it lies no further than halfway to either
neighbour, and a point exactly halfway counts when `m` is even. -/
def readsBack (d : Dyadic) (n : Nat) (k : Int) : Bool :=
  let scale : Nat × Nat := if 0 ≤ k then (Nat.pow 10 k.toNat, 1) else (1, Nat.pow 10 (-k).toNat)
  let unit : Nat × Nat :=
    if 2 ≤ d.q then (Nat.pow 2 (d.q - 2).toNat, 1) else (1, Nat.pow 2 (2 - d.q).toNat)
  let decimal := n * scale.1 * unit.2
  let below := (4 * d.m - if d.narrowBelow then 1 else 2) * unit.1 * scale.2
  let above := (4 * d.m + 2) * unit.1 * scale.2
  if d.m % 2 == 0 then below ≤ decimal && decimal ≤ above
  else below < decimal && decimal < above

end Dyadic

def isNegative (x : Float) : Bool := x.toBits.toNat / Nat.pow 2 63 == 1

end Lox.Decimal
