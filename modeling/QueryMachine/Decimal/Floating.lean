import QueryMachine.Decimal.Shortest

/-! Binary floats as sign, class and magnitude, from their bits. -/
namespace QueryMachine.Decimal

inductive Magnitude where
  | nan
  | infinite
  | zero
  | finite (b : Binary)
  deriving DecidableEq, Repr

structure Format where
  fraction : Nat
  exponent : Nat

def single : Format := ⟨23, 8⟩
def double : Format := ⟨52, 11⟩

def Format.bias (f : Format) : Int := (Nat.pow 2 (f.exponent - 1) : Nat) - 1

def Format.negative (f : Format) (bits : Nat) : Bool :=
  bits / Nat.pow 2 (f.fraction + f.exponent) % 2 == 1

def Format.magnitude (f : Format) (bits : Nat) : Magnitude :=
  let frac := bits % Nat.pow 2 f.fraction
  let expt := bits / Nat.pow 2 f.fraction % Nat.pow 2 f.exponent
  if expt == Nat.pow 2 f.exponent - 1 then (if frac == 0 then .infinite else .nan)
  else if expt == 0 then
    if frac == 0 then .zero else .finite ⟨frac, 1 - f.bias - f.fraction, false⟩
  else .finite ⟨frac + Nat.pow 2 f.fraction, expt - f.bias - f.fraction, frac == 0 && expt > 1⟩

end QueryMachine.Decimal
