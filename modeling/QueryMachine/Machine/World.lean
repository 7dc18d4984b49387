import QueryMachine.Code.Listing
import QueryMachine.Value.Equality

/-! Loaded classes, and the state that running code can change: objects, static fields, the adapters
generated so far and what each call site remembers. -/
namespace QueryMachine

structure Class where
  name : String
  fields : List (String × Rep)
  statics : List (String × Rep)
  methods : List Method

namespace Class

def method? (c : Class) (name : String) : Option Method := c.methods.reverse.find? (·.name == name)

def fieldNames (c : Class) : List String := c.fields.map (·.1)

def initial : Rep → Value
  | .prim .int64 => .long 0
  | .prim .float32 => .float 0
  | .prim .float64 => .double 0
  | .prim _ => .int 0
  | .void | .ref _ => .null

def instantiate (c : Class) : Instance := ⟨c.name, c.fieldNames, c.fields.map fun (_, r) => initial r⟩

end Class

namespace Instance

def slot? (o : Instance) (name : String) : Option Nat :=
  (o.fields.reverse.findIdx? (· == name)).map fun i => o.fields.length - 1 - i

def get? (o : Instance) (name : String) : Option Value :=
  (o.slot? name).map fun i => (o.slots[i]?).getD .null

def put? (o : Instance) (name : String) (v : Value) : Option Instance :=
  (o.slot? name).map fun i => { o with slots := o.slots.set i v }

end Instance

structure Library where
  classes : List Class

namespace Library

def empty : Library := ⟨[]⟩

def class? (l : Library) (name : String) : Option Class := l.classes.find? (·.name == name)

def contains (l : Library) (name : String) : Bool := (l.class? name).isSome

def define (l : Library) (c : Class) : Except Error Library :=
  if l.contains c.name then .error (.of (.duplicateUnit c.name)) else .ok ⟨l.classes ++ [c]⟩

def method? (l : Library) (cls name : String) : Option Method := do (← l.class? cls).method? name

def size (l : Library) : Nat := l.classes.length

end Library

inductive Adapter where
  | record
  | map
  | list
  | struct (cls : String)
  | host (cls : String)
  | scalar (cls : String)
  deriving DecidableEq, Repr

/-- Adapters generated so far, one per sort of object. -/
structure Linker where
  adapters : List (Tag × Adapter)
  generated : Nat

namespace Linker

def empty : Linker := ⟨[], 0⟩

end Linker

structure World where
  heap : Heap
  statics : List ((String × String) × Value)
  linker : Linker
  /-- The last sort of object each call site has met, with its adapter. -/
  sites : List (Nat × Tag × Adapter)

namespace World

def empty (heap : Heap) : World := ⟨heap, [], .empty, []⟩

def static? (w : World) (cls name : String) : Option Value := w.statics.lookup (cls, name)

def setStatic (w : World) (cls name : String) (v : Value) : Bool × World :=
  if (w.static? cls name).isSome then
    (true, { w with statics := w.statics.map fun (k, old) => (k, if k == (cls, name) then v else old) })
  else (false, w)

/-- Static fields of a new class, at their initial values; of fields of one name the last counts. -/
def declare (w : World) (c : Class) : World :=
  { w with statics := w.statics ++ c.statics.reverse.map fun (n, r) => ((c.name, n), Class.initial r) }

end World

inductive Stop where
  | fault (f : Fault)
  | never
  deriving DecidableEq

abbrev Run := ExceptT Stop (StateM World)

namespace Run

def fault {α : Type} (f : Fault) : Run α := throw (.fault f)

def never {α : Type} : Run α := throw .never

def lift {α : Type} : Except Fault α → Run α
  | .ok v => pure v
  | .error f => fault f

def orFault {α : Type} (f : Fault) : Option α → Run α
  | some v => pure v
  | none => fault f

def attempt {α : Type} (r : Run α) : Run (Except Fault α) := fun w =>
  match r w with
  | (.ok v, w) => (.ok (.ok v), w)
  | (.error (.fault f), w) => (.ok (.error f), w)
  | (.error .never, w) => (.error .never, w)

def heap : Run Heap := return (← get).heap

def setHeap (heap : Heap) : Run Unit := modify fun w => { w with heap }

def alloc (make : Heap → Value × Heap) : Run Value := do
  let (v, h) := make (← heap)
  setHeap h
  return v

end Run

end QueryMachine
