import QueryMachine.Text.Quoted

/-! Printed forms of composite values: `Name { field: v }`, `Name(v)`, `[a, b]` and `{k: v}`. -/
namespace QueryMachine.Text.Layout

def separated (items : List String) : String := ", ".intercalate items

def listing (items : List String) : String := "[" ++ separated items ++ "]"

def mapping (entries : List (String × String)) : String :=
  "\x7b" ++ separated (entries.map fun (k, v) => k ++ ": " ++ v) ++ "\x7d"

def fields (name : String) (entries : List (String × String)) : String :=
  if entries.isEmpty then name
  else name ++ " \x7b " ++ separated (entries.map fun (k, v) => k ++ ": " ++ v) ++ " \x7d"

def wrapped (name inner : String) : String := name ++ "(" ++ inner ++ ")"

end QueryMachine.Text.Layout
