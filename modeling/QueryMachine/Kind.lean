import QueryMachine.Error
import QueryMachine.Text.Uppercase

/-! Kinds of values, primitive kinds, and the four kinds of numbers on the operand stack. -/
namespace QueryMachine

inductive Kind where
  | void
  | int8
  | int16
  | int32
  | int64
  | float32
  | float64
  | boolean
  | string
  | bytes
  | timestamp
  | enum
  | array
  | sequence
  | map
  | struct
  | promise
  | result
  | object
  | any
  deriving DecidableEq, Repr

namespace Kind

def all : List Kind :=
  [void, int8, int16, int32, int64, float32, float64, boolean, string, bytes, timestamp, enum, array,
    sequence, map, struct, promise, result, object, any]

def name : Kind → String
  | void => "VOID"
  | int8 => "INT8"
  | int16 => "INT16"
  | int32 => "INT32"
  | int64 => "INT64"
  | float32 => "FLOAT32"
  | float64 => "FLOAT64"
  | boolean => "BOOLEAN"
  | string => "STRING"
  | bytes => "BYTES"
  | timestamp => "TIMESTAMP"
  | enum => "ENUM"
  | array => "ARRAY"
  | sequence => "SEQUENCE"
  | map => "MAP"
  | struct => "STRUCT"
  | promise => "PROMISE"
  | result => "RESULT"
  | object => "OBJECT"
  | any => "ANY"

def id (k : Kind) : Nat := all.idxOf k

def aliases : List (String × Kind) :=
  [("BYTE", int8), ("SHORT", int16), ("INT", int32), ("INTEGER", int32), ("LONG", int64),
    ("FLOAT", float32), ("DOUBLE", float64), ("BOOL", boolean), ("LIST", sequence), ("RECORD", struct)]

def parse (s : String) : Except Error Kind :=
  let upper := Text.Uppercase.text s
  match all.find? (·.name == upper) with
  | some k => .ok k
  | none => match aliases.lookup upper with
    | some k => .ok k
    | none => .error (.of (.unsupportedType upper))

def isInteger : Kind → Bool
  | int8 | int16 | int32 | int64 => true
  | _ => false

def isFloat : Kind → Bool
  | float32 | float64 => true
  | _ => false

def isNumeric (k : Kind) : Bool := k.isInteger || k.isFloat

def rank : Kind → Nat
  | int8 => 1
  | int16 => 2
  | int32 => 3
  | int64 => 4
  | float32 => 5
  | float64 => 6
  | _ => 0

def isComposite : Kind → Bool
  | array | sequence | map | struct | promise | result => true
  | _ => false

end Kind

/-- Numbers on the operand stack; narrow integers compute as `int`. -/
inductive Num where
  | int
  | long
  | float
  | double
  deriving DecidableEq, Repr

namespace Num

def name : Num → String
  | int => "i"
  | long => "l"
  | float => "f"
  | double => "d"

def ofName? (s : String) : Option Num := [int, long, float, double].find? (·.name == s)

def width : Num → Nat
  | long | double => 2
  | _ => 1

def isIntegral : Num → Bool
  | int | long => true
  | _ => false

end Num

inductive Prim where
  | boolean
  | int8
  | int16
  | int32
  | int64
  | float32
  | float64
  deriving DecidableEq, Repr

namespace Prim

def all : List Prim := [boolean, int8, int16, int32, int64, float32, float64]

def kind : Prim → Kind
  | boolean => .boolean
  | int8 => .int8
  | int16 => .int16
  | int32 => .int32
  | int64 => .int64
  | float32 => .float32
  | float64 => .float64

def name : Prim → String
  | boolean => "boolean"
  | int8 => "int8"
  | int16 => "int16"
  | int32 => "int32"
  | int64 => "int64"
  | float32 => "float32"
  | float64 => "float64"

def ofName? (s : String) : Option Prim := all.find? (·.name == s)

def num : Prim → Num
  | boolean | int8 | int16 | int32 => .int
  | int64 => .long
  | float32 => .float
  | float64 => .double

def width (p : Prim) : Nat := p.num.width

def boxClass : Prim → String
  | boolean => "Boolean"
  | int8 => "Byte"
  | int16 => "Short"
  | int32 => "Integer"
  | int64 => "Long"
  | float32 => "Float"
  | float64 => "Double"

def ofBoxClass? (s : String) : Option Prim := all.find? (·.boxClass == s)

def isInteger (p : Prim) : Bool := p.kind.isInteger

end Prim

end QueryMachine
