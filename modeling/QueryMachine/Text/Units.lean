/-! Sixteen-bit code units of text, and the 32-bit hash over them that string switches bucket by. -/
namespace QueryMachine.Text.Units

def ofChar (c : Char) : List Nat :=
  let code := c.toNat
  if code < 0x10000 then [code]
  else [0xd800 + (code - 0x10000) / 0x400, 0xdc00 + (code - 0x10000) % 0x400]

def ofString (s : String) : List Nat := s.toList.flatMap ofChar

def hash (s : String) : Int32 :=
  (ofString s).foldl (fun h unit => h * 31 + Int32.ofNat unit) 0

end QueryMachine.Text.Units
