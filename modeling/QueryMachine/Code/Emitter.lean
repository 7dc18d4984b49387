import QueryMachine.Code.Conversion
import QueryMachine.Expr.Frame
import QueryMachine.Text.Units
import QueryMachine.Text.Uppercase

/-! Emission of the code of one method: operations, labels, regions, and the slots of the locals whose frames
are active. A failure keeps what was emitted before it. -/
namespace QueryMachine

structure ActiveFrame where
  frame : FrameId
  base : Nat
  slots : List Nat

/-- Slots are counted as they are given out. Code that has counted past `slotLimit` is not used. -/
structure Emitter where
  ops : Array Op
  labels : Array (Option Nat)
  handlers : List Handler
  active : List ActiveFrame
  nextSlot : Nat
  maxLocals : Nat
  symbols : Nat

namespace Emitter

def empty : Emitter := ⟨#[], #[], [], [], 0, 0, 0⟩

def slotLimit : Nat := 65535

end Emitter

abbrev Emit := ReaderT Frames (ExceptT Error (StateM Emitter))

namespace Emit

def fail {α : Type} (c : Cause) : Emit α := throw (.of c)

def op (o : Op) : Emit Unit := modify fun e => { e with ops := e.ops.push o }

def ops (os : List Op) : Emit Unit := modify fun e => { e with ops := e.ops ++ os.toArray }

def newLabel : Emit Label := do
  let e ← get
  set { e with labels := e.labels.push none }
  return e.labels.size

def newLabels (n : Nat) : Emit (List Label) := (List.range n).mapM fun _ => newLabel

def mark (l : Label) : Emit Unit :=
  modify fun e => { e with labels := e.labels.setIfInBounds l (some e.ops.size) }

def jump (l : Label) : Emit Unit := op (.jump l)

def region (start stop target : Label) (filter : Catch) : Emit Unit :=
  modify fun e => { e with handlers := e.handlers ++ [⟨start, stop, target, filter⟩] }

def gensym (stem : String) : Emit String := do
  let e ← get
  set { e with symbols := e.symbols + 1 }
  return stem ++ toString (e.symbols + 1)

def layout (next : Nat) : List Ty → List Nat × Nat
  | [] => ([], next)
  | t :: ts =>
    let (slots, stop) := layout (next + max t.width 1) ts
    (next :: slots, stop)

def enterFrame (f : FrameId) : Emit Unit := do
  let fs ← read
  let e ← get
  let (slots, stop) := layout e.nextSlot ((fs.frame f).locals.map (·.2))
  set { e with
    nextSlot := stop
    maxLocals := max e.maxLocals stop
    active := ⟨f, e.nextSlot, slots⟩ :: e.active }

def exitFrame (f : FrameId) : Emit Unit := do
  let e ← get
  match e.active with
  | [] => fail (.internal "local frames exited out of order")
  | a :: rest =>
    if a.frame = f then set { e with active := rest, nextSlot := a.base }
    else do
      set { e with active := rest }
      fail (.internal "local frames exited out of order")

def slotOf (l : Local) : Emit Nat := do
  match (← get).active.findSome? fun a => if a.frame = l.frame then a.slots[l.index]? else none with
  | some s => return s
  | none => fail (.internal ("local '" ++ l.name ++ "' used outside its scope"))

def newTemp (width : Nat) : Emit Nat := do
  let e ← get
  let stop := e.nextSlot + max width 1
  set { e with nextSlot := stop, maxLocals := max e.maxLocals stop }
  return e.nextSlot

def load (slot width : Nat) : Emit Unit := op (if width = 2 then .load2 slot else .load slot)

def store (slot width : Nat) : Emit Unit := op (if width = 2 then .store2 slot else .store slot)

def pop (t : Ty) : Emit Unit := if t.width = 0 then pure () else op (.pop t.width)

def dup (t : Ty) : Emit Unit := if t.width = 0 then pure () else op (.dup t.width)

def swap (top under : Ty) : Emit Unit :=
  if top.width = 0 ∨ under.width = 0 then pure ()
  else if top.width = 1 ∧ under.width = 1 then op .swap
  else ops [.dupX top.width under.width, .pop top.width]

def castError {α : Type} (target source : Ty) : Emit α := fail (.incompatibleCast target.text source.text)

def checkCast (target source : Ty) : Emit Unit :=
  match target.rep, source.rep with
  | .ref cls, .ref _ => op (.checkCast cls)
  | _, _ => castError target source

def box (t : Ty) : Emit Unit :=
  match t with
  | .prim p => op (.box p)
  | _ => pure ()

/-- Convert the top value; where a primitive is wanted of an object that is no box, the object is first
checked to be the box of it. -/
def cast (target source : Ty) : Emit Unit :=
  if target.rep = source.rep then pure ()
  else if target.rep = .object then box source
  else match Conversion.ops? source.rep target.rep with
    | some os => ops os
    | none => match target with
      | .prim p => do
        checkCast (.boxedOf p) source
        ops [.unbox p]
      | _ => checkCast target source

def unbox (t : Ty) : Emit Unit := cast t.unboxed t

/-- Go to `isNull`, the value popped, when it is null. True when there was something to test. -/
def nullTest (t : Ty) (isNull : Label) : Emit Bool := do
  if !t.isNullable then return false
  let done ← newLabel
  dup t
  op (.ifNonNull done)
  pop t
  jump isNull
  mark done
  return true

def nullTestLeave (t : Ty) (isNull : Label) : Emit Bool := do
  if !t.isNullable then return false
  let done ← newLabel
  dup t
  op (.ifNonNull done)
  jump isNull
  mark done
  return true

def notNullTest (t : Ty) (isNotNull : Label) : Emit Unit := do
  if t.isNullable then
    dup t
    op (.ifNonNull isNotNull)
    pop t
  else jump isNotNull

/-- Convert the top value, or go to `isNull` with it popped. True when a null test was emitted. -/
def castOrNull (target source : Ty) (isNull : Label) : Emit Bool := do
  if target.rep = source.rep then nullTest source isNull
  else if target.rep = .object then
    if source.isPrimitive then do
      box source
      return false
    else nullTest source isNull
  else match Conversion.ops? source.rep target.rep with
    | some os => do
      let tested ← nullTest source isNull
      ops os
      return tested
    | none => do
      let tested ← nullTest source isNull
      cast target source
      return tested

def downcast (t : Ty) : Emit Unit :=
  if t.isAny || t.prim?.isSome then pure ()
  else match t.rep with
    | .ref cls => op (.checkCast cls)
    | _ => pure ()

def zero : Num → Value
  | .int => .int 0
  | .long => .long 0
  | .float => .float 0
  | .double => .double 0

def testFalse (t : Ty) (isFalse : Label) : Emit Unit := do
  match t.prim? with
  | none => fail (.incompatibleCast "boolean" t.text)
  | some p =>
    if !t.isPrimitive then
      let _ ← castOrNull (.prim p) t isFalse
    if p.num != .int then
      op (.const (zero p.num))
      op (.cmp p.num)
    op (.ifZero .eq isFalse)

def insertCase {α : Type} (key : Int32) (value : α) : List (Int32 × α) → List (Int32 × α)
  | [] => [(key, value)]
  | (k, v) :: rest =>
    if key < k then (key, value) :: (k, v) :: rest
    else if key = k then (k, value) :: rest
    else (k, v) :: insertCase key value rest

def integerSwitch (cases : List (Int32 × Label)) (default : Label) : Emit Unit :=
  op (.lookup (cases.foldl (fun table (k, l) => insertCase k l table) []) default)

def buckets (cases : List (String × Label)) : List (Int32 × List (String × Label)) :=
  cases.foldl (fun table (name, l) =>
    let upper := Text.Uppercase.text name
    let hash := Text.Units.hash upper
    insertCase hash (((table.lookup hash).getD []) ++ [(upper, l)]) table) []

/-- Dispatch on the string on top of the stack without regard to case. Within a bucket names are compared one
by one; a null takes the default. -/
def stringSwitch (cases : List (String × Label)) (default : Label) : Emit Unit := do
  let table := buckets cases
  let held ← newTemp 1
  let nonNull ← newLabel
  ops [.dup 1, .ifNonNull nonNull, .pop 1, .jump default]
  mark nonNull
  ops [.native .stringUpper, .dup 1, .store held, .native .stringHash]
  let labels ← newLabels table.length
  op (.lookup ((table.zip labels).map fun ((hash, _), l) => (hash, l)) default)
  (table.zip labels).forM fun ((_, entries), l) => do
    mark l
    entries.forM fun (name, target) =>
      ops [.const (.string name), .load held, .native .stringEquals, .ifZero .ne target]
    jump default

end Emit

end QueryMachine
