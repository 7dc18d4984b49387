import QueryMachine.Text.Layout

/-! Faults raised while a program runs, and the filters that catch them. -/
namespace QueryMachine

inductive Fault where
  | nullPointer
  | classCast (expected found : String)
  | notComparable (type : String) (line offset : Int)
  | propertyNotFound (name : String)
  | indexOutOfBounds (index : Int) (length : Nat)
  | divideByZero
  | timeout
  | unsupported (what : String)
  | failed (what : String)
  deriving DecidableEq, Repr

inductive FaultKind where
  | nullPointer
  | classCast
  | notComparable
  | propertyNotFound
  | indexOutOfBounds
  | divideByZero
  | timeout
  | unsupported
  | failed
  deriving DecidableEq, Repr

inductive Catch where
  | any
  | kind (k : FaultKind)
  deriving DecidableEq, Repr

namespace FaultKind

def all : List FaultKind :=
  [nullPointer, classCast, notComparable, propertyNotFound, indexOutOfBounds, divideByZero, timeout,
    unsupported, failed]

def name : FaultKind → String
  | nullPointer => "NullPointer"
  | classCast => "ClassCast"
  | notComparable => "NotComparable"
  | propertyNotFound => "PropertyNotFound"
  | indexOutOfBounds => "IndexOutOfBounds"
  | divideByZero => "DivideByZero"
  | timeout => "Timeout"
  | unsupported => "Unsupported"
  | failed => "Failed"

def ofName? (s : String) : Option FaultKind := all.find? (·.name == s)

end FaultKind

namespace Catch

def text : Catch → String
  | any => "Any"
  | kind k => Text.Layout.wrapped "Fault" k.name

end Catch

namespace Fault

def kind : Fault → FaultKind
  | nullPointer => .nullPointer
  | classCast .. => .classCast
  | notComparable .. => .notComparable
  | propertyNotFound _ => .propertyNotFound
  | indexOutOfBounds .. => .indexOutOfBounds
  | divideByZero => .divideByZero
  | timeout => .timeout
  | unsupported _ => .unsupported
  | failed _ => .failed

def ofKind : FaultKind → Fault
  | .nullPointer => nullPointer
  | .classCast => classCast "?" "?"
  | .notComparable => notComparable "?" (-1) 0
  | .propertyNotFound => propertyNotFound "?"
  | .indexOutOfBounds => indexOutOfBounds (-1) 0
  | .divideByZero => divideByZero
  | .timeout => timeout
  | .unsupported => unsupported "operation"
  | .failed => failed "failed"

def caughtBy (f : Fault) : Catch → Bool
  | .any => true
  | .kind k => f.kind == k

def text : Fault → String
  | nullPointer => "null reference"
  | classCast expected found => "cannot cast " ++ found ++ " to " ++ expected
  | notComparable type line offset =>
    "value of type " ++ type ++ " is not comparable (L" ++ toString line ++ ":" ++ toString offset ++ ")"
  | propertyNotFound name => "property '" ++ name ++ "' not found"
  | indexOutOfBounds index length =>
    "index " ++ toString index ++ " out of bounds for length " ++ toString length
  | divideByZero => "division by zero"
  | timeout => "timeout exceeded"
  | unsupported what => "unsupported operation: " ++ what
  | failed what => what

def detail (f : Fault) : String :=
  let quoted := Text.Quoted.text
  match f with
  | nullPointer | divideByZero | timeout => f.kind.name
  | classCast expected found =>
    Text.Layout.fields f.kind.name [("expected", quoted expected), ("found", quoted found)]
  | notComparable type line offset =>
    Text.Layout.fields f.kind.name
      [("type_name", quoted type), ("line", toString line), ("offset", toString offset)]
  | indexOutOfBounds index length =>
    Text.Layout.fields f.kind.name [("index", toString index), ("length", toString length)]
  | propertyNotFound what | unsupported what | failed what =>
    Text.Layout.wrapped f.kind.name (quoted what)

end Fault

end QueryMachine
