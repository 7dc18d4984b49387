/-! Why a program is refused, and where. -/
namespace QueryMachine

structure Location where
  line : Int
  offset : Int
  deriving DecidableEq, Repr

namespace Location

def unknown : Location := ⟨0, 0⟩

def text (l : Location) : String := "L" ++ toString l.line ++ ":" ++ toString l.offset

end Location

inductive Cause where
  | unsupportedType (what : String)
  | emptyTypeList
  | propertyNotFound (type property : String)
  | incompatibleCast (target source : String)
  | notIterable (type : String)
  | notIndexable (type : String)
  | duplicateUnit (name : String)
  | unrecognizedOperator (name : String)
  | invalidArgument (what : String)
  | alreadyBuilt
  /-- A defect of the compiler itself: unverifiable code or a dangling reference. -/
  | internal (what : String)
  /-- A counter has no next number. No error is returned for it: the compilation is aborted. -/
  | overflow
  deriving DecidableEq, Repr

namespace Cause

def text : Cause → String
  | unsupportedType what => "unsupported type: " ++ what
  | emptyTypeList => "cannot unify an empty list of types"
  | propertyNotFound type property => "property '" ++ property ++ "' not found on " ++ type
  | incompatibleCast target source => "cannot cast " ++ source ++ " to " ++ target
  | notIterable type => "type " ++ type ++ " is not iterable"
  | notIndexable type => "type " ++ type ++ " is not indexable"
  | duplicateUnit name => "unit '" ++ name ++ "' already exists"
  | unrecognizedOperator name => "unrecognized operator: " ++ name
  | invalidArgument what => "invalid argument: " ++ what
  | alreadyBuilt => "class source has already been built"
  | internal what => "internal error: " ++ what
  | overflow => "attempt to add with overflow"

def name : Cause → String
  | unsupportedType _ => "UnsupportedType"
  | emptyTypeList => "EmptyTypeList"
  | propertyNotFound .. => "PropertyNotFound"
  | incompatibleCast .. => "IncompatibleCast"
  | notIterable _ => "NotIterable"
  | notIndexable _ => "NotIndexable"
  | duplicateUnit _ => "DuplicateUnit"
  | unrecognizedOperator _ => "UnrecognizedOperator"
  | invalidArgument _ => "InvalidArgument"
  | alreadyBuilt => "AlreadyBuilt"
  | internal _ => "Internal"
  | overflow => "Overflow"

def isInternal : Cause → Bool
  | internal _ => true
  | _ => false

end Cause

structure Error where
  location : Option Location
  cause : Cause
  deriving DecidableEq, Repr

namespace Error

def of (cause : Cause) : Error := ⟨none, cause⟩

def locate (e : Error) (location : Location) : Error :=
  match e.location with
  | some _ => e
  | none => { e with location := some location }

def text (e : Error) : String :=
  match e.location with
  | some l => l.text ++ ": " ++ e.cause.text
  | none => e.cause.text

end Error

end QueryMachine
