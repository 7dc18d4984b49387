import QueryMachine.Fault
import QueryMachine.Kind
import QueryMachine.Timestamp

/-! Values of the machine. Each takes one slot but `long` and `double`, which take two: the value and, above
it, `top`. Mutable objects are known by their address. -/
namespace QueryMachine

inductive Boxed where
  | boolean (v : Bool)
  | byte (v : Int8)
  | short (v : Int16)
  | int (v : Int32)
  | long (v : Int64)
  | float (v : Float32)
  | double (v : Float)
  deriving DecidableEq

/-- A moment on the virtual clock after which waiting ends; none is never. -/
structure Timeout where
  deadline : Option Nat
  deriving DecidableEq, Repr

structure EnumValue where
  type : String
  name : String
  ordinal : Nat
  deriving DecidableEq, Repr

abbrev Address := Nat

inductive Value where
  | null
  | top
  | int (v : Int32)
  | long (v : Int64)
  | float (v : Float32)
  | double (v : Float)
  | boxed (b : Boxed)
  | string (s : String)
  | bytes (b : List UInt8)
  | timestamp (t : Timestamp)
  | enum (e : EnumValue)
  | list (addr : Address)
  | map (addr : Address)
  | record (addr : Address)
  | object (addr : Address)
  | promise (addr : Address)
  | host (addr : Address)
  | success (v : Value)
  | failure (f : Fault)
  | timeout (t : Timeout)
  | function (cls name : String)
  | throwable (f : Fault)
  deriving DecidableEq

namespace Boxed

def prim : Boxed → Prim
  | boolean _ => .boolean
  | byte _ => .int8
  | short _ => .int16
  | int _ => .int32
  | long _ => .int64
  | float _ => .float32
  | double _ => .float64

def className (b : Boxed) : String := b.prim.boxClass

def integer? : Boxed → Option Int64
  | byte v => some v.toInt64
  | short v => some v.toInt64
  | int v => some v.toInt64
  | long v => some v
  | _ => none

def number? : Boxed → Option Float
  | float v => some v.toFloat
  | double v => some v
  | boolean _ => none
  | b => b.integer?.map Int64.toFloat

def isIntegral (b : Boxed) : Bool := b.integer?.isSome

end Boxed

namespace Value

def isNull : Value → Bool
  | null => true
  | _ => false

def width : Value → Nat
  | long _ | double _ => 2
  | _ => 1

def isObject : Value → Bool
  | null | top | int _ | long _ | float _ | double _ => false
  | _ => true

def integer? : Value → Option Int64
  | int v => some v.toInt64
  | long v => some v
  | boxed b => b.integer?
  | _ => none

def number? : Value → Option Float
  | float v => some v.toFloat
  | double v => some v
  | boxed b => b.number?
  | v => v.integer?.map Int64.toFloat

def bool? : Value → Option Bool
  | int v => some (v != 0)
  | boxed (.boolean b) => some b
  | _ => none

def string? : Value → Option String
  | string s => some s
  | enum e => some e.name
  | _ => none

def fault? : Value → Option Fault
  | throwable f => some f
  | _ => none

def ofOutcome : Except Fault Value → Value
  | .ok v => success v
  | .error f => failure f

end Value

end QueryMachine
