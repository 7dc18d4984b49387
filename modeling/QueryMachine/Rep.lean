import QueryMachine.Kind

/-! How a value sits on the machine: nothing, a primitive of one or two slots, or a reference to an object
of a named class. Types with one representation are interchangeable there. -/
namespace QueryMachine

inductive Rep where
  | void
  | prim (p : Prim)
  | ref (cls : String)
  deriving DecidableEq, Repr

namespace Rep

def object : Rep := ref "Object"

def width : Rep → Nat
  | void => 0
  | prim p => p.width
  | ref _ => 1

def isPrimitive : Rep → Bool
  | prim _ => true
  | _ => false

def isReference : Rep → Bool
  | ref _ => true
  | _ => false

def className? : Rep → Option String
  | ref cls => some cls
  | _ => none

def num? : Rep → Option Num
  | prim p => some p.num
  | _ => none

def primLetter : Prim → String
  | .boolean => "Z"
  | .int8 => "B"
  | .int16 => "S"
  | .int32 => "I"
  | .int64 => "J"
  | .float32 => "F"
  | .float64 => "D"

def descriptor : Rep → String
  | void => "V"
  | prim p => primLetter p
  | ref cls => if cls.startsWith "[" then cls else "L" ++ cls ++ ";"

def ofDescriptor? (s : String) : Option Rep :=
  if s == "V" then some void
  else match Prim.all.find? (primLetter · == s) with
    | some p => some (prim p)
    | none =>
      if s.startsWith "[" then some (ref s)
      else if s.startsWith "L" && s.endsWith ";" && 2 ≤ s.length then
        some (ref (String.ofList (s.toList.drop 1).dropLast))
      else none

end Rep

end QueryMachine
