import QueryMachine.Decimal.Floating

/-! The remainder of a division of floats that goes toward zero. It is exact, so it is found among the
integers: both operands are multiples of the smaller power of two. -/
namespace QueryMachine.Decimal

def Format.encode (f : Format) (negative : Bool) (mant : Nat) (expt : Int) : Nat :=
  let sign := if negative then Nat.pow 2 (f.fraction + f.exponent) else 0
  if mant == 0 then sign
  else
    let least := 1 - f.bias - f.fraction
    let bits := mant.log2 + 1
    let scale : Int := expt + bits - (f.fraction + 1)
    if scale < least then sign + mant * Nat.pow 2 (expt - least).toNat / Nat.pow 2 (least - expt).toNat
    else
      let whole := mant * Nat.pow 2 (expt - scale).toNat / Nat.pow 2 (scale - expt).toNat
      sign + (scale - least + 1).toNat * Nat.pow 2 f.fraction + (whole - Nat.pow 2 f.fraction)

def Format.nan (f : Format) : Nat := (Nat.pow 2 (f.exponent + 1) - 1) * Nat.pow 2 (f.fraction - 1)

def Format.remainder (f : Format) (x y : Nat) : Nat :=
  match f.magnitude x, f.magnitude y with
  | .finite a, .finite b =>
    let least := min a.expt b.expt
    let r := a.mant * Nat.pow 2 (a.expt - least).toNat % (b.mant * Nat.pow 2 (b.expt - least).toNat)
    f.encode (f.negative x) r least
  | .zero, .finite _ | .zero, .infinite | .finite _, .infinite => x
  | _, _ => f.nan

end QueryMachine.Decimal
