/-! The shortest decimal that reads back as a binary float. The float is `mant * 2 ^ expt`; the reals that
round to it form an interval, closed exactly when `mant` is even, and the answer is a multiple of the
largest power of ten that has a multiple in it. -/
namespace QueryMachine.Decimal

structure Scientific where
  digits : Nat
  expt : Int
  deriving DecidableEq, Repr

/-- A positive binary float; `narrow` when its lower neighbour is only half as far as the upper. -/
structure Binary where
  mant : Nat
  expt : Int
  narrow : Bool
  deriving DecidableEq, Repr

/-- A value and the ends of its rounding interval over one denominator. -/
structure Interval where
  low : Nat
  value : Nat
  high : Nat
  denom : Nat
  closed : Bool

def Binary.interval (b : Binary) : Interval :=
  let up := Nat.pow 2 (b.expt - 2).toNat
  { low := (4 * b.mant - if b.narrow then 1 else 2) * up
    value := 4 * b.mant * up
    high := (4 * b.mant + 2) * up
    denom := Nat.pow 2 (2 - b.expt).toNat
    closed := b.mant % 2 == 0 }

/-- The multiple of `10 ^ expt` that stands for the value, if the interval has one: of two, the nearer. -/
def Interval.multiple (i : Interval) (expt : Int) : Option Nat :=
  let up := Nat.pow 10 (-expt).toNat
  let unit := i.denom * Nat.pow 10 expt.toNat
  let below := i.value * up / unit
  let inside (c : Nat) : Bool :=
    if i.closed then i.low * up ≤ c * unit && c * unit ≤ i.high * up
    else i.low * up < c * unit && c * unit < i.high * up
  match inside below, inside (below + 1) with
  | true, true =>
    if i.value * up - below * unit < (below + 1) * unit - i.value * up then some below
    else some (below + 1)
  | true, false => some below
  | false, true => some (below + 1)
  | false, false => none

def Interval.search (i : Interval) : Nat → Int → Scientific
  | 0, expt => ⟨0, expt⟩
  | fuel + 1, expt => match i.multiple expt with
    | some digits => ⟨digits, expt⟩
    | none => i.search fuel (expt - 1)

/-- No power of ten above `10 ^ 39` (single) or `10 ^ 309` (double) has a multiple at all, and every float
is at least `10 ^ -45` or `10 ^ -324`, so 800 steps from the decimal length always find one. -/
def Binary.shortest (b : Binary) : Scientific :=
  let i := b.interval
  i.search 800 ((Nat.toDigits 10 (i.value / i.denom)).length : Nat)

end QueryMachine.Decimal
