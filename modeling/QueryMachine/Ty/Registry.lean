import QueryMachine.Ty.HostType
import QueryMachine.Ty.Unify
import QueryMachine.Ty.ValueType

/-! Contexts that remember resolved types. A context reads what its ancestors know and writes only what it
learns itself. -/
namespace QueryMachine

abbrev ContextId := Nat

structure Context where
  ancestors : List ContextId
  values : List (ValueType × Ty)
  hosts : List (HostType × Ty)

namespace Context

def size (c : Context) : Nat := c.values.length + c.hosts.length

end Context

structure Registry where
  contexts : Array Context

namespace Registry

def new : Registry := ⟨#[⟨[], [], []⟩]⟩

def context (r : Registry) (c : ContextId) : Context := r.contexts.getD c ⟨[], [], []⟩

def child (r : Registry) (c : ContextId) : ContextId × Registry :=
  (r.contexts.size, ⟨r.contexts.push ⟨c :: (r.context c).ancestors, [], []⟩⟩)

def chain (r : Registry) (c : ContextId) : List Context :=
  (c :: (r.context c).ancestors).map r.context

def value? (r : Registry) (c : ContextId) (t : ValueType) : Option Ty :=
  (r.chain c).findSome? fun x => x.values.lookup t

def host? (r : Registry) (c : ContextId) (t : HostType) : Option Ty :=
  (r.chain c).findSome? fun x => x.hosts.lookup t

def learnValue (r : Registry) (c : ContextId) (t : ValueType) (type : Ty) : Registry :=
  let x := r.context c
  ⟨r.contexts.setIfInBounds c { x with values := (t, type) :: x.values }⟩

def learnHost (r : Registry) (c : ContextId) (t : HostType) (type : Ty) : Registry :=
  let x := r.context c
  ⟨r.contexts.setIfInBounds c { x with hosts := (t, type) :: x.hosts }⟩

abbrev Resolving := ExceptT Error (StateM Registry)

mutual

def resolveHost (c : ContextId) (t : HostType) : Resolving Ty := do
  match t.scalar? with
  | some type => return type
  | none => match (← get).host? c t with
    | some type => return type
    | none =>
      let type ← match t with
        | .array e => Ty.array <$> resolveHost c e
        | .list e => Ty.list <$> resolveHost c e
        | .future e => Ty.promise <$> resolveHost c e
        | .provider e => (fun t => t.boxed.orNull) <$> resolveHost c e
        | .map k v => do
          let k ← resolveHost c k
          Ty.mapOf k <$> resolveHost c v
        | .enum name variants => pure (Ty.enumeration name variants)
        | .record => pure Ty.record
        | .cls name properties comparable =>
          (fun ps => Ty.host true name ps comparable) <$> resolveProperties c properties
        | t => throw (.of (.unsupportedType t.text))
      modify (·.learnHost c t type)
      return type

def resolveProperties (c : ContextId) (ps : List (String × HostType)) :
    Resolving (List (String × Ty)) := do
  match ps with
  | [] => return []
  | (name, t) :: rest =>
    let type ← resolveHost c t
    return (name, type) :: (← resolveProperties c rest)

end

end Registry

end QueryMachine
