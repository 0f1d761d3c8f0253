import Lox.Fault

/-! What surrounds a run: the output sink, the clock, and whoever may cancel it. -/
namespace Lox

/-- The limits of a run. A limit that is not positive is none. -/
structure Budget where
  /-- How many loop iterations a run may take altogether. -/
  maxIterations : Int64
  /-- How long a run may take, in nanoseconds. -/
  timeout : Int64
  deriving DecidableEq, Repr

namespace Budget

def unlimited : Budget := ⟨0, 0⟩

def timeoutMs (b : Budget) : Int := b.timeout.toInt.tdiv 1000000

end Budget

/-- How far things have come: how many writes the output sink has taken, how often a run has asked
whether to go on, and how many writes the sink has refused. -/
structure Progress where
  writes : Nat
  polls : Nat
  refused : Nat
  deriving DecidableEq, Repr

def Progress.attempts (p : Progress) : Nat := p.writes + p.refused

structure Host where
  /-- Why the output sink refuses the next write after so many attempts, if it does. -/
  refusal : (attempts : Nat) → Option Text
  /-- Whether a run that has a time limit and began at `start` is asked to stop. -/
  interrupt : (timeout : Int64) → (start now : Progress) → Option Interrupt

namespace Host

/-- Every write succeeds and nothing interrupts. -/
def ideal : Host := ⟨fun _ => none, fun _ _ _ => none⟩

/-- When time is up for a run that begins at some moment, if it has a time limit. -/
def expiry (timeout : Int64) (start : Nat) : Option Nat :=
  if 0 < timeout then some (start + timeout.toInt.toNat) else none

/-- What ends a run by a clock that nobody cancels: its deadline. The clock tells the time at each
point of progress, in nanoseconds. -/
def untilDeadline (clock : Progress → Nat) (timeout : Int64) (start now : Progress) :
    Option Interrupt :=
  if (expiry timeout (clock start)).any (· ≤ clock now) then some .deadline else none

/-- A clock that goes by writes and questions. -/
structure Timing where
  /-- How many nanoseconds pass after each write. -/
  stall : Nat
  /-- How many nanoseconds a question whether to go on stands for. -/
  tick : Nat
  deriving DecidableEq, Repr

def Timing.at (t : Timing) (p : Progress) : Nat := p.writes * t.stall + p.polls * t.tick

/-- What ends a run by this clock: its deadline, or the cancellation during the write number
`cancelAt` (before everything for zero), whichever comes first. -/
def Timing.interrupt (t : Timing) (cancelAt : Option Nat) (timeout : Int64)
    (start now : Progress) : Option Interrupt :=
  match cancelAt with
  | none => untilDeadline t.at timeout start now
  | some n =>
    if n ≤ start.writes then some .canceled
    else if n ≤ now.writes then
      -- the clock when the write was made, before the pause after it
      let moment := t.at now - (now.writes + 1 - n) * t.stall
      if (expiry timeout (t.at start)).any (· ≤ moment) then some .deadline else some .canceled
    else untilDeadline t.at timeout start now

end Host
end Lox
