import QueryMachine.Session

/-! Elements by key, and iteration. Targets are not null when the code runs; what is missing reads as null. -/
namespace QueryMachine

inductive IndexAccess where
  | list (elem : Ty)
  | map (key value : Ty)
  | record
  | dynamic

namespace IndexAccess

def of? : Ty → Option IndexAccess
  | .carrier _ .array elem | .carrier _ .list elem => some (.list elem)
  | .map _ key value => some (.map key value)
  | .atom _ .record => some .record
  | .atom _ .any => some .dynamic
  | _ => none

def keyType : IndexAccess → Ty
  | .list _ => .int32
  | .map key _ => key
  | .record => .string
  | .dynamic => .any

def itemType : IndexAccess → Ty
  | .list elem => elem.orNull
  | .map _ value => value.orNull
  | .record | .dynamic => .any

def op : IndexAccess → Build Op
  | .list _ => return .native .listGet
  | .map .. => return .native .mapGet
  | .record => return .native .recordGet
  | .dynamic => Build.dynamic .index

def read (a : IndexAccess) (target key : Expr) : Build Expr := do
  let op ← a.op
  return ⟨a.itemType, do
    target.generate
    key.generateAs a.keyType
    Emit.op op
    Emit.downcast a.itemType⟩

end IndexAccess

/-- Everything that can be iterated is seen as a list. -/
inductive IterateAccess where
  | list (elem : Ty)
  | dynamic

namespace IterateAccess

def of? : Ty → Option IterateAccess
  | .carrier _ .array elem | .carrier _ .list elem => some (.list elem)
  | .atom _ .any => some .dynamic
  | _ => none

def itemType : IterateAccess → Ty
  | .list elem => elem.orNull
  | .dynamic => .any

def toList (a : IterateAccess) (target : Expr) : Build Expr := do
  match a with
  | .list _ => return target
  | .dynamic =>
    let op ← Build.dynamic .iterate
    return ⟨(Ty.list .any).nonNull, do
      target.generate
      Emit.op op⟩

end IterateAccess

end QueryMachine
