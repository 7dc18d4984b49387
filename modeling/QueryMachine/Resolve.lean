import QueryMachine.Unit.Struct

/-! Resolution of type descriptions in a session. Value types resolve to types without null; optional is what
admits it. -/
namespace QueryMachine.Resolve

def host (c : ContextId) (t : HostType) : Build Ty := do
  let s ← get
  let (answer, types) := s.types.resolveHost c t
  set { s with types }
  Build.lift answer

mutual

def value (c : ContextId) (t : ValueType) : Build Ty := do
  match t with
  | .scalar p => return .prim p
  | t =>
    match (← get).types.value? c t with
    | some type => return type
    | none =>
      let type ← match t with
        | .void => pure Ty.void
        | .scalar p => pure (.prim p)
        | .string => pure Ty.string.nonNull
        | .bytes => pure Ty.bytes.nonNull
        | .timestamp => pure Ty.timestamp.nonNull
        | .any => pure Ty.any
        | .array e => do
          let type ← value c e
          pure (Ty.list type).nonNull
        | .map k v => do
          let k ← value c k
          let v ← value c v
          pure (Ty.mapOf k v).nonNull
        | .struct false _ => pure Ty.record.nonNull
        | .struct true fs => do
          let type ← Struct.type (← fields c fs)
          pure type.nonNull
        | .optional t => do
          let type ← value c t
          pure type.boxed.orNull
        | .union ts => do
          let types ← members c ts
          Build.lift (Ty.unifyAll types)
      modify fun s => { s with types := s.types.learnValue c t type }
      return type

def fields (c : ContextId) (fs : List (String × ValueType)) : Build (List (String × Ty)) := do
  match fs with
  | [] => return []
  | (name, t) :: rest =>
    let type ← value c t
    return (name, type) :: (← fields c rest)

def members (c : ContextId) (ts : List ValueType) : Build (List Ty) := do
  match ts with
  | [] => return []
  | t :: rest =>
    let type ← value c t
    return type :: (← members c rest)

end

end QueryMachine.Resolve
