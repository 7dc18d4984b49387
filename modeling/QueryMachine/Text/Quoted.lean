import QueryMachine.Text.Hidden

/-! Quoted text: double quotes around, `\` before a quote or a backslash, letters for the common
controls, the code point in hexadecimal for what has no glyph. -/
namespace QueryMachine.Text.Quoted

def hexDigits (n : Nat) : String := String.ofList (Nat.toDigits 16 n)

def char (c : Char) : String :=
  if c == '"' then "\\\""
  else if c == '\\' then "\\\\"
  else if c == '\n' then "\\n"
  else if c == '\r' then "\\r"
  else if c == '\t' then "\\t"
  else if c.toNat == 0 then "\\0"
  else if c.toNat < 0x20 || c.toNat == 0x7f || Hidden.holds c.toNat then
    "\\u\x7b" ++ hexDigits c.toNat ++ "\x7d"
  else c.toString

def text (s : String) : String :=
  "\"" ++ s.toList.foldl (fun acc c => acc ++ char c) "" ++ "\""

end QueryMachine.Text.Quoted
