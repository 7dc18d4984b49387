import QueryMachine.Config
import QueryMachine.Ty.Registry
import QueryMachine.Unit.Constants
import QueryMachine.Unit.Draft

/-! What one compilation accumulates: objects of literals, frames, resolved types, generated units and shared
constants. Building fails without losing what was accumulated. -/
namespace QueryMachine

structure Session where
  config : Config
  heap : Heap
  frames : Frames
  types : Registry
  units : List UnitDraft
  names : List String
  built : Bool
  structs : List (List (String × Ty) × Ty)
  structCount : Nat
  constants : Constants
  nextSite : Nat
  dumps : List (String × String)

namespace Session

def new (config : Config) (heap : Heap) : Session :=
  { config
    heap
    frames := .empty
    types := .new
    units := []
    names := []
    built := false
    structs := []
    structCount := 0
    constants := .empty
    nextSite := 0
    dumps := [] }

def contains (s : Session) (unit : String) : Bool := s.names.contains unit

end Session

abbrev Build := ExceptT Error (StateM Session)

namespace Build

def fail {α : Type} (c : Cause) : Build α := throw (.of c)

def lift {α : Type} : Except Error α → Build α
  | .ok v => pure v
  | .error e => throw e

def withFrames {α : Type} (f : Frames → α × Frames) : Build α := do
  let s ← get
  let (v, frames) := f s.frames
  set { s with frames }
  return v

def newRoot : Build FrameId := withFrames Frames.newRoot

def newChild (parent : FrameId) : Build FrameId := withFrames (·.newChild parent)

def allocate (f : FrameId) (name : String) (type : Ty) : Build Local := withFrames (·.allocate f name type)

def temp (f : FrameId) (stem : String) (type : Ty) : Build Local := withFrames (·.temp f stem type)

def newMethod (cls name : String) (receiver : Option Ty) (params : List (String × Ty)) (returns : Ty) :
    Build MethodDraft := do
  match receiver with
  | none => withFrames fun fs => MethodDraft.newStatic fs cls name params returns
  | some t =>
    let s ← get
    let (m, frames) ← lift (MethodDraft.newInstance s.frames t name params returns)
    set { s with frames }
    return m

def withHeap {α : Type} (f : Heap → α × Heap) : Build α := do
  let s ← get
  let (v, heap) := f s.heap
  set { s with heap }
  return v

def newContext (parent : ContextId) : Build ContextId := do
  let s ← get
  let (c, types) := s.types.child parent
  set { s with types }
  return c

def dynamic (d : Dynamic) : Build Op := do
  let s ← get
  set { s with nextSite := s.nextSite + 1 }
  return .dynamic s.nextSite d

def constant (v : Value) : Build Expr := do
  let s ← get
  let (e, constants) := s.constants.literal s.heap v
  set { s with constants }
  return e

def checkOpen : Build Unit := do
  if (← get).built then fail .alreadyBuilt

def addUnit (u : UnitDraft) : Build Unit := do
  checkOpen
  let s ← get
  if s.config.maxUnits ≤ s.units.length then
    fail (.invalidArgument ("too many generated units (limit " ++ toString s.config.maxUnits ++ ")"))
  if s.contains u.name then fail (.duplicateUnit u.name)
  set { s with names := u.name :: s.names, units := s.units ++ [u] }

end Build

end QueryMachine
