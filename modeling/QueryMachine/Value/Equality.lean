import QueryMachine.Value.Heap

/-! Equality, hashing and order of values. Numbers are equal across their forms; lists, maps and records are
equal by content; objects and host values only to themselves. -/
namespace QueryMachine

/-- What a map hashes of a key. Integral floats hash like the integer they equal. -/
inductive HashKey where
  | integer (v : Int64)
  | nothing
  | float (bits : UInt64)
  | boolean (v : Bool)
  | string (s : String)
  | enum (e : EnumValue)
  | other (cls : String)
  deriving DecidableEq

namespace HashKey

def isWhole (v : Float) : Bool := v.floor == v && !v.isInf

def ofFloat (v : Float) : HashKey :=
  if isWhole v && v.abs < 9223372036854775808.0 then integer v.toInt64 else float v.toBits

end HashKey

namespace Heap

def hashKey (h : Heap) (v : Value) : HashKey :=
  match v.integer? with
  | some i => .integer i
  | none => match v with
    | .null | .top => .nothing
    | .boxed (.boolean b) => .boolean b
    | .string s => .string s
    | .enum e => .enum e
    | v => match v.number? with
      | some x => .ofFloat x
      | none => .other (h.className v)

def equalNumbers (a b : Value) : Bool :=
  match a.integer?, b.integer? with
  | some x, some y => x == y
  | _, _ => match a.number?, b.number? with
    | some x, some y => x == y
    | _, _ => false

def entry? (h : Heap) (eq : Value → Value → Bool) (entries : List (Value × Value)) (key : Value) :
    Option (Value × Value) :=
  let hash := h.hashKey key
  entries.find? fun (k, _) => h.hashKey k = hash && eq key k

/-- Equality with `inner` for what containers hold. A container equals itself whatever it holds. -/
def equalBy (h : Heap) (inner : Value → Value → Bool) (a b : Value) : Bool :=
  match a, b with
  | .null, .null => true
  | .null, _ | _, .null => false
  | .int x, .int y => x == y
  | .long x, .long y => x == y
  | .float x, .float y => x == y
  | .double x, .double y => x == y
  | .boxed (.boolean x), .boxed (.boolean y) => x == y
  | .string x, .string y => x == y
  | .bytes x, .bytes y => x == y
  | .timestamp x, .timestamp y => x == y
  | .enum x, .enum y => x == y
  | .list x, .list y =>
    x == y ||
      ((h.list x).size == (h.list y).size
        && ((h.list x).toList.zip (h.list y).toList).all fun (v, w) => inner v w)
  | .map x, .map y =>
    x == y ||
      ((h.map x).length == (h.map y).length
        && (h.map x).all fun (k, v) => (h.entry? inner (h.map y) k).any fun (_, w) => inner v w)
  | .record x, .record y => x == y || (h.record x).equals inner (h.record y)
  | .object x, .object y => x == y
  | .host x, .host y => x == y
  | a, b => equalNumbers a b

def equalWithin (h : Heap) : Nat → Value → Value → Bool
  | 0 => h.equalBy fun _ _ => false
  | depth + 1 => h.equalBy (h.equalWithin depth)

def equals (h : Heap) (a b : Value) : Bool := h.equalWithin (h.size + 1) a b

def lookup (h : Heap) (a : Address) (key : Value) : Option Value :=
  (h.entry? h.equals (h.map a) key).map (·.2)

def insertEntry (h : Heap) (entries : List (Value × Value)) (key value : Value) : List (Value × Value) :=
  let hash := h.hashKey key
  let hit (k : Value) : Bool := h.hashKey k = hash && h.equals key k
  if entries.any fun (k, _) => hit k then
    entries.map fun (k, v) => if hit k then (k, value) else (k, v)
  else entries ++ [(key, value)]

def entriesOf (h : Heap) (pairs : List (Value × Value)) : List (Value × Value) :=
  pairs.foldl (fun entries (k, v) => h.insertEntry entries k v) []

def compareFloats (x y : Float) : Option Ordering :=
  if x < y then some .lt else if x == y then some .eq else if y < x then some .gt else none

def compareNumbers (a b : Value) : Option Ordering :=
  match a.integer?, b.integer? with
  | some x, some y => some (compare x y)
  | _, _ => do compareFloats (← a.number?) (← b.number?)

def compareBytes : List UInt8 → List UInt8 → Ordering
  | [], [] => .eq
  | [], _ :: _ => .lt
  | _ :: _, [] => .gt
  | x :: xs, y :: ys => (compare x y).then (compareBytes xs ys)

def compare? (h : Heap) (a b : Value) : Option Ordering :=
  match a, b with
  | .boxed (.boolean x), .boxed (.boolean y) => some (compare x y)
  | .string x, .string y => some (compare x y)
  | .bytes x, .bytes y => some (compareBytes x y)
  | .timestamp x, .timestamp y => some (x.order y)
  | .enum x, .enum y => if x.type == y.type then some (compare x.ordinal y.ordinal) else none
  | .host x, .host y => (h.host x).compare? (h.host y)
  | a, b => compareNumbers a b

end Heap

end QueryMachine
