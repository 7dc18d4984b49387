/-! Open records: named values in the order of their first write. Names match up to ASCII case and keep the
spelling of that write. -/
namespace QueryMachine

structure Record (α : Type) where
  entries : List (String × α)
  deriving DecidableEq, Repr

namespace Record

variable {α : Type}

def empty : Record α := ⟨[]⟩

def fold (name : String) : String := name.toLower

def matching (name : String) (entry : String × α) : Bool := fold entry.1 == fold name

def get? (r : Record α) (name : String) : Option α := (r.entries.find? (matching name)).map (·.2)

def contains (r : Record α) (name : String) : Bool := r.entries.any (matching name)

def put (r : Record α) (name : String) (value : α) : Record α :=
  if r.contains name then
    ⟨r.entries.map fun e => if matching name e then (e.1, value) else e⟩
  else ⟨r.entries ++ [(name, value)]⟩

def ofPairs (pairs : List (String × α)) : Record α :=
  pairs.foldl (fun r (name, value) => r.put name value) empty

def names (r : Record α) : List String := r.entries.map (·.1)

def size (r : Record α) : Nat := r.entries.length

def equals (eq : α → α → Bool) (r s : Record α) : Bool :=
  r.size == s.size && r.entries.all fun (name, value) => (s.get? name).any (eq value)

end Record

end QueryMachine
