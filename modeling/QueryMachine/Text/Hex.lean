/-! Numbers and bytes in hexadecimal, with small letters. -/
namespace QueryMachine.Text.Hex

def digits : List Char := "0123456789abcdef".toList

def value? (s : String) : Option Nat :=
  s.toList.foldlM (fun n c => if digits.contains c then some (n * 16 + digits.idxOf c) else none) 0

def padded (width n : Nat) : String :=
  let ds := Nat.toDigits 16 n
  String.ofList (List.replicate (width - ds.length) '0' ++ ds)

def ofBytes (bs : List UInt8) : String := String.join (bs.map fun b => padded 2 b.toNat)

def pairs? : List Char → Option (List UInt8)
  | [] => some []
  | [_] => none
  | a :: b :: rest => return .ofNat (← value? (String.ofList [a, b])) :: (← pairs? rest)

def bytes? (s : String) : Option (List UInt8) := pairs? s.toList

end QueryMachine.Text.Hex
