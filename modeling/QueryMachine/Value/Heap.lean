import QueryMachine.Promise
import QueryMachine.Record
import QueryMachine.Rep
import QueryMachine.Value.Basic

/-! The store of mutable objects, one table per sort, and the virtual clock. -/
namespace QueryMachine

/-- An object of a generated class: its fields in declaration order. -/
structure Instance where
  cls : String
  fields : List String
  slots : List Value

/-- A value of the host with readable properties. Ranked ones are ordered by rank. -/
structure Host where
  cls : String
  properties : List (String × Value)
  rank : Option Int64

namespace Host

def property? (h : Host) (name : String) : Option Value :=
  match h.rank with
  | some r => if name == "$rank" then some (.boxed (.long r)) else h.properties.lookup name
  | none => h.properties.lookup name

def propertyNames (h : Host) : List String := h.properties.map (·.1)

def compare? (a b : Host) : Option Ordering := do
  let mine ← a.rank
  let other ← (b.property? "$rank").bind Value.integer?
  return compare mine other

end Host

/-- Class and name of the static method a continuation calls. -/
structure Callback where
  cls : String
  name : String

structure Heap where
  lists : Array (Array Value)
  maps : Array (List (Value × Value))
  records : Array (Record Value)
  objects : Array Instance
  hosts : Array Host
  promises : Promises Callback Value
  clock : Nat

namespace Heap

def empty : Heap := ⟨#[], #[], #[], #[], #[], .empty, 0⟩

def list (h : Heap) (a : Address) : Array Value := h.lists.getD a #[]
def map (h : Heap) (a : Address) : List (Value × Value) := h.maps.getD a []
def record (h : Heap) (a : Address) : Record Value := h.records.getD a .empty
def object (h : Heap) (a : Address) : Instance := h.objects.getD a ⟨"", [], []⟩
def host (h : Heap) (a : Address) : Host := h.hosts.getD a ⟨"", [], none⟩
def promise? (h : Heap) (a : Address) : Option (Except Fault Value) := h.promises.result? a

def size (h : Heap) : Nat := h.lists.size + h.maps.size + h.records.size + h.objects.size

def newList (h : Heap) (items : Array Value) : Value × Heap :=
  (.list h.lists.size, { h with lists := h.lists.push items })

def newMap (h : Heap) (entries : List (Value × Value)) : Value × Heap :=
  (.map h.maps.size, { h with maps := h.maps.push entries })

def newRecord (h : Heap) (r : Record Value) : Value × Heap :=
  (.record h.records.size, { h with records := h.records.push r })

def newObject (h : Heap) (o : Instance) : Value × Heap :=
  (.object h.objects.size, { h with objects := h.objects.push o })

def newHost (h : Heap) (o : Host) : Value × Heap :=
  (.host h.hosts.size, { h with hosts := h.hosts.push o })

def newPromise (h : Heap) (p : Promise Callback Value) : Value × Heap :=
  let (promises, a) := h.promises.add p
  (.promise a, { h with promises })

def setList (h : Heap) (a : Address) (items : Array Value) : Heap :=
  { h with lists := h.lists.setIfInBounds a items }

def setMap (h : Heap) (a : Address) (entries : List (Value × Value)) : Heap :=
  { h with maps := h.maps.setIfInBounds a entries }

def setRecord (h : Heap) (a : Address) (r : Record Value) : Heap :=
  { h with records := h.records.setIfInBounds a r }

def setObject (h : Heap) (a : Address) (o : Instance) : Heap :=
  { h with objects := h.objects.setIfInBounds a o }

def expired (h : Heap) (t : Timeout) : Bool := t.deadline.any (· ≤ h.clock)

def waitUntil (h : Heap) (deadline : Nat) : Heap := { h with clock := max h.clock deadline }

def timeoutAfter (h : Heap) (ms : Nat) : Timeout := ⟨some (h.clock + ms)⟩

def className (h : Heap) : Value → String
  | .null => "null"
  | .top => "top"
  | .int _ => "int"
  | .long _ => "long"
  | .float _ => "float"
  | .double _ => "double"
  | .boxed b => b.className
  | .string _ => "String"
  | .bytes _ => "Bytes"
  | .timestamp _ => "Timestamp"
  | .enum e => e.type
  | .list _ => "List"
  | .map _ => "Map"
  | .record _ => "Record"
  | .object a => (h.object a).cls
  | .promise _ => "Promise"
  | .host a => (h.host a).cls
  | .success _ | .failure _ => "Outcome"
  | .timeout _ => "Timeout"
  | .function .. => "Function"
  | .throwable _ => "Fault"

def isInstance (h : Heap) (v : Value) (cls : String) : Bool :=
  v.isObject &&
    if cls == "Object" then true
    else if cls == "Number" then
      match v with
      | .boxed b => b.prim != .boolean
      | _ => false
    else if cls.startsWith "[" then
      match v with
      | .list _ => true
      | _ => false
    else h.className v == cls

end Heap

/-- Sort of an object, by which dynamic operations find their adapter. -/
inductive Tag where
  | boxed (cls : String)
  | string
  | bytes
  | timestamp
  | enum (type : String)
  | list
  | map
  | record
  | struct (cls : String)
  | promise
  | outcome
  | timeout
  | function
  | host (cls : String)
  | throwable
  deriving DecidableEq, Repr

namespace Tag

def text : Tag → String
  | boxed cls => Text.Layout.wrapped "Boxed" (Text.Quoted.text cls)
  | string => "String"
  | bytes => "Bytes"
  | timestamp => "Timestamp"
  | enum type => Text.Layout.wrapped "Enum" (Text.Quoted.text type)
  | list => "List"
  | map => "Map"
  | record => "Record"
  | struct cls => Text.Layout.wrapped "Struct" (Text.Quoted.text cls)
  | promise => "Promise"
  | outcome => "Outcome"
  | timeout => "Timeout"
  | function => "Function"
  | host cls => Text.Layout.wrapped "Host" (Text.Quoted.text cls)
  | throwable => "Throwable"

end Tag

namespace Heap

def tag? (h : Heap) : Value → Option Tag
  | .null | .top | .int _ | .long _ | .float _ | .double _ => none
  | .boxed b => some (.boxed b.className)
  | .string _ => some .string
  | .bytes _ => some .bytes
  | .timestamp _ => some .timestamp
  | .enum e => some (.enum e.type)
  | .list _ => some .list
  | .map _ => some .map
  | .record _ => some .record
  | .object a => some (.struct (h.object a).cls)
  | .promise _ => some .promise
  | .host a => some (.host (h.host a).cls)
  | .success _ | .failure _ => some .outcome
  | .timeout _ => some .timeout
  | .function .. => some .function
  | .throwable _ => some .throwable

end Heap

end QueryMachine
