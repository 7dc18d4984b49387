import QueryMachine.Code.Op
import QueryMachine.Decimal.Remainder
import QueryMachine.Value.Equality

/-! Arithmetic, conversion and boxing on operands. Integers wrap at their width; floats that become integers
stop at the ends of the range and not-a-number becomes zero. -/
namespace QueryMachine.Number

def divisible {α : Type} (zero : Bool) (v : α) : Except Fault α :=
  if zero then .error .divideByZero else .ok v

def int (a : Arith) (x y : Int32) : Except Fault Int32 :=
  match a with
  | .add => .ok (x + y)
  | .sub => .ok (x - y)
  | .mul => .ok (x * y)
  | .div => divisible (y == 0) (x / y)
  | .rem => divisible (y == 0) (x % y)

def long (a : Arith) (x y : Int64) : Except Fault Int64 :=
  match a with
  | .add => .ok (x + y)
  | .sub => .ok (x - y)
  | .mul => .ok (x * y)
  | .div => divisible (y == 0) (x / y)
  | .rem => divisible (y == 0) (x % y)

def float (a : Arith) (x y : Float32) : Float32 :=
  match a with
  | .add => x + y
  | .sub => x - y
  | .mul => x * y
  | .div => x / y
  | .rem => .ofBits (Decimal.single.remainder x.toBits.toNat y.toBits.toNat).toUInt32

def double (a : Arith) (x y : Float) : Float :=
  match a with
  | .add => x + y
  | .sub => x - y
  | .mul => x * y
  | .div => x / y
  | .rem => .ofBits (Decimal.double.remainder x.toBits.toNat y.toBits.toNat).toUInt64

def arith (a : Arith) (k : Num) (x y : Value) : Except Fault Value :=
  match k, x, y with
  | .int, .int x, .int y => (int a x y).map .int
  | .long, .long x, .long y => (long a x y).map .long
  | .float, .float x, .float y => .ok (.float (float a x y))
  | .double, .double x, .double y => .ok (.double (double a x y))
  | k, _, _ => .error (.classCast k.name "operand")

def negate (h : Heap) (k : Num) : Value → Except Fault Value
  | .int v => .ok (.int (-v))
  | .long v => .ok (.long (-v))
  | .float v => .ok (.float (-v))
  | .double v => .ok (.double (-v))
  | v => .error (.classCast k.name (h.className v))

def ofOrdering : Ordering → Int32
  | .lt => -1
  | .eq => 0
  | .gt => 1

def compare (k : Num) (x y : Value) : Except Fault Value :=
  match k, x, y with
  | .int, .int x, .int y => .ok (.int (ofOrdering (Ord.compare x y)))
  | .long, .long x, .long y => .ok (.int (ofOrdering (Ord.compare x y)))
  | .float, .float x, .float y =>
    .ok (.int (ofOrdering ((Heap.compareFloats x.toFloat y.toFloat).getD .gt)))
  | .double, .double x, .double y => .ok (.int (ofOrdering ((Heap.compareFloats x y).getD .gt)))
  | k, _, _ => .error (.classCast k.name "operand")

def convert (h : Heap) (source target : Num) (v : Value) : Except Fault Value :=
  match target, v with
  | .int, .int i => .ok (.int i)
  | .int, .long l => .ok (.int l.toInt32)
  | .long, .int i => .ok (.long i.toInt64)
  | .long, .long l => .ok (.long l)
  | target, v => match v with
    | .int _ | .long _ | .float _ | .double _ =>
      let x := v.number?.getD 0
      match target with
      | .int => .ok (.int x.toInt32)
      | .long => .ok (.long x.toInt64)
      | .float => .ok (.float x.toFloat32)
      | .double => .ok (.double x)
    | v => .error (.classCast source.name (h.className v))

def narrow (p : Prim) (v : Int32) : Int32 :=
  match p with
  | .boolean => if v == 0 then 0 else 1
  | .int8 => v.toInt8.toInt32
  | .int16 => v.toInt16.toInt32
  | _ => v

def box (h : Heap) (p : Prim) (v : Value) : Except Fault Value :=
  match p, v with
  | .boolean, .int i => .ok (.boxed (.boolean (i != 0)))
  | .int8, .int i => .ok (.boxed (.byte i.toInt8))
  | .int16, .int i => .ok (.boxed (.short i.toInt16))
  | .int32, .int i => .ok (.boxed (.int i))
  | .int64, .long l => .ok (.boxed (.long l))
  | .float32, .float x => .ok (.boxed (.float x))
  | .float64, .double x => .ok (.boxed (.double x))
  | p, v => .error (.classCast p.name (h.className v))

def integerIn (b : Boxed) : Int64 := b.integer?.getD (b.number?.getD 0).toInt64

def numberIn (b : Boxed) : Float := b.number?.getD 0

def openBox (p : Prim) (b : Boxed) : Value :=
  match p with
  | .boolean => match b with
    | .boolean v => .int (if v then 1 else 0)
    | b => .int (if integerIn b == 0 then 0 else 1)
  | .int8 | .int16 | .int32 => .int (narrow p (integerIn b).toInt32)
  | .int64 => .long (integerIn b)
  | .float32 => .float (numberIn b).toFloat32
  | .float64 => .double (numberIn b)

def unbox (h : Heap) (p : Prim) : Value → Except Fault Value
  | .null => .error .nullPointer
  | .boxed b => .ok (openBox p b)
  | v => .error (.classCast p.boxClass (h.className v))

end QueryMachine.Number
