import QueryMachine.Access.Index
import QueryMachine.Build.Logic
import QueryMachine.Ty.Unify

/-! Literal collections and their length. Elements meet at their common type. -/
namespace QueryMachine.Build

def generateElement (elem : Ty) (e : Expr) : Emit Unit := do
  e.generateAs elem
  Emit.box elem

def filled (type elem : Ty) (items : List Expr) : Expr :=
  ⟨type, do
    Emit.op (.native .newList)
    items.forM fun e => do
      Emit.op (.dup 1)
      generateElement elem e
      Emit.op (.native .listAdd)⟩

def list (items : List Expr) : Expr :=
  let elem := Ty.unifyOrAny (items.map (·.type))
  filled (Ty.list elem).nonNull elem items

def array (elem : Ty) (items : List Expr) : Expr := filled (Ty.array elem).nonNull elem items

def map (entries : List (Expr × Expr)) : Expr :=
  let key := Ty.unifyOrAny (entries.map (·.1.type))
  let value := Ty.unifyOrAny (entries.map (·.2.type))
  ⟨(Ty.mapOf key value).nonNull, do
    Emit.op (.native .newMap)
    entries.forM fun (k, v) => do
      Emit.op (.dup 1)
      generateElement key k
      generateElement value v
      Emit.op (.native .mapPut)⟩

def isSized : Ty → Bool
  | .atom _ .string | .atom _ .bytes => true
  | t => (IndexAccess.of? t).isSome

def length (frame : FrameId) (target : Expr) : Build Expr := do
  if !isSized target.type then fail (.notIndexable target.type.text)
  guarded frame target (fun held => return ⟨.int32, do
    held.generate
    Emit.op (.native .length)⟩) none

end QueryMachine.Build
