import QueryMachine.Decimal.Floating

/-! Decimal text of floats in two styles. The plain one never has an exponent and no fraction on
integers; the detailed one keeps `.0` and writes an exponent below `10 ^ -4` and from `10 ^ 16` on. -/
namespace QueryMachine.Decimal

structure Style where
  keepsPoint : Bool
  positional : Int → Bool

def plain : Style := ⟨false, fun _ => true⟩
def detailed : Style := ⟨true, fun lead => -4 ≤ lead && lead < 16⟩

def zeros (n : Nat) : String := String.ofList (List.replicate n '0')

def trimZeros (digits : List Char) : List Char × Nat :=
  let kept := (digits.reverse.dropWhile (· == '0')).reverse
  (kept, digits.length - kept.length)

def positionalText (keepsPoint : Bool) (digits : List Char) (expt : Int) : String :=
  let point := (digits.length : Int) + expt
  if 0 ≤ expt then
    String.ofList digits ++ zeros expt.toNat ++ (if keepsPoint then ".0" else "")
  else if 0 < point then
    String.ofList (digits.take point.toNat) ++ "." ++ String.ofList (digits.drop point.toNat)
  else "0." ++ zeros (-point).toNat ++ String.ofList digits

def exponentText (digits : List Char) (lead : Int) : String :=
  let fraction := digits.drop 1
  String.ofList (digits.take 1)
    ++ (if fraction.isEmpty then "" else "." ++ String.ofList fraction) ++ "e" ++ toString lead

def Style.decimal (n : Style) (d : Scientific) : String :=
  let (digits, dropped) := trimZeros (Nat.toDigits 10 d.digits)
  let expt := d.expt + dropped
  let lead := (digits.length : Int) + expt - 1
  if n.positional lead then positionalText n.keepsPoint digits expt else exponentText digits lead

def Style.float (n : Style) (f : Format) (bits : Nat) : String :=
  match f.magnitude bits with
  | .nan => "NaN"
  | m =>
    let sign := if f.negative bits then "-" else ""
    sign ++ match m with
      | .finite b => n.decimal b.shortest
      | .zero => if n.keepsPoint then "0.0" else "0"
      | _ => "inf"

end QueryMachine.Decimal
