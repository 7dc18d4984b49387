import QueryMachine.Access.Deferred
import QueryMachine.Access.Index
import QueryMachine.Access.Property
import QueryMachine.Build.Logic

/-! Reads through properties, keys, promises and outcomes, and checked casts. A null target reads as null. -/
namespace QueryMachine.Build

def property (frame : FrameId) (target : Expr) (name : String) : Build Expr := do
  match PropertyAccess.of? target.type with
  | none => fail (.propertyNotFound target.type.text name)
  | some a =>
    let _ ← lift (a.type name)
    guarded frame target (a.read · name) none

def index (frame : FrameId) (target key : Expr) : Build Expr := do
  match IndexAccess.of? target.type with
  | none => fail (.notIndexable target.type.text)
  | some a => guarded frame target (a.read · key) none

def resolve (frame : FrameId) (timeout target : Expr) : Build Expr := do
  match Deferred.promised? target.type with
  | none => return target
  | some result => guarded frame target (fun held => return Deferred.resolve result timeout held) none

def resolveLater (frame : FrameId) (target : Expr) (function : MethodRef) (returns : Ty) : Build Expr := do
  if (Deferred.promised? target.type).isNone then
    fail (.invalidArgument (target.type.text ++ " is not a promise"))
  let handle : Expr := ⟨Ty.any.nonNull, Emit.op (.function function)⟩
  guarded frame target (fun held => return Deferred.resolveLater held handle returns) none

def outcomeValue (frame : FrameId) (target : Expr) : Build Expr := do
  match Deferred.captured? target.type with
  | none => fail (.invalidArgument (target.type.text ++ " is not an outcome"))
  | some result => guarded frame target (fun held => return Deferred.value result held) none

def checkCast (target source : Ty) : Build Unit := lift ((Emit.cast target source .empty .empty).1)

/-- Convert a value. Where it may be null and a primitive is wanted, the result is the box of it or null. -/
def cast (e : Expr) (type : Ty) : Build Expr := do
  match e.type.isNullable, type with
  | true, .prim p =>
    checkCast type e.type.nonNull
    return ⟨.boxedOf p, do
      let isNull ← Emit.newLabel
      let done ← Emit.newLabel
      e.generate
      let _ ← Emit.castOrNull type e.type isNull
      Emit.op (.box p)
      Emit.jump done
      Emit.mark isNull
      Emit.op .constNull
      Emit.mark done⟩
  | _, type =>
    checkCast type e.type
    return e.cast type

end QueryMachine.Build
