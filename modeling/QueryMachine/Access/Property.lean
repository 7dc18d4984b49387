import QueryMachine.Session

/-! Named properties, for the types that have them. Targets are not null when the code runs. -/
namespace QueryMachine

inductive PropertyAccess where
  | struct (cls : String) (fields : List (String × Ty))
  | record
  | map (value : Ty)
  | host (cls : String) (properties : List (String × Ty))
  | dynamic

namespace PropertyAccess

def of? : Ty → Option PropertyAccess
  | .struct _ cls fields => some (.struct cls fields)
  | .atom _ .record => some .record
  | .map _ (.atom _ .string) value | .map _ (.atom _ .any) value => some (.map value)
  | .host _ cls properties _ => some (.host cls properties)
  | .atom _ .any => some .dynamic
  | _ => none

def isClosed : PropertyAccess → Bool
  | .struct .. | .host .. => true
  | _ => false

def type (a : PropertyAccess) (name : String) : Except Error Ty :=
  match a with
  | .struct cls fields => match Ty.fieldNamed? fields name with
    | some (_, t) => .ok t
    | none => .error (.of (.propertyNotFound cls name))
  | .host cls properties => match Ty.fieldNamed? properties name with
    | some (_, t) => .ok t.boxed.orNull
    | none => .error (.of (.propertyNotFound cls name))
  | .map value => .ok value.orNull
  | .record | .dynamic => .ok .any

def read (a : PropertyAccess) (target : Expr) (name : String) : Build Expr := do
  let type ← Build.lift (a.type name)
  match a with
  | .struct cls fields => match Ty.fieldNamed? fields name with
    | some (field, t) => return ⟨type, do
        target.generate
        Emit.op (.getField ⟨cls, field, t.rep⟩)⟩
    | none => Build.fail (.propertyNotFound cls name)
  | .record => return ⟨type, do
      target.generate
      Emit.op (.const (.string name))
      Emit.op (.native .recordGet)⟩
  | .map _ => return ⟨type, do
      target.generate
      Emit.op (.const (.string name))
      Emit.op (.native .mapGet)
      Emit.downcast type⟩
  | .host .. | .dynamic =>
    let op ← Build.dynamic (.getProperty name)
    return ⟨type, do
      target.generate
      Emit.op op
      Emit.downcast type⟩

def mergeField (cls : String) (record source value : Nat) (field : String × Ty) : Emit Unit := do
  let skip ← Emit.newLabel
  Emit.ops [.load source, .getField ⟨cls, field.1, field.2.rep⟩]
  Emit.box field.2
  Emit.op (.store value)
  if field.2.isNullable then Emit.ops [.load value, .ifNull skip]
  Emit.ops [.load record, .const (.string field.1), .load value, .native .recordPut]
  Emit.mark skip

def mergeInto (a : PropertyAccess) (record source : Expr) : Build Seq := do
  match a with
  | .struct cls fields => return do
      let recordSlot ← Emit.newTemp 1
      let sourceSlot ← Emit.newTemp 1
      let valueSlot ← Emit.newTemp 1
      record.generate
      Emit.op (.store recordSlot)
      source.generate
      Emit.op (.store sourceSlot)
      fields.forM (mergeField cls recordSlot sourceSlot valueSlot)
  | _ =>
    let op ← Build.dynamic .mergeFields
    return do
      record.generate
      source.generate
      Emit.op op

end PropertyAccess

end QueryMachine
