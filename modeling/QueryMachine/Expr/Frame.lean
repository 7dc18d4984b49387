import QueryMachine.Ty.Basic

/-! Lexical frames of locals. Frames form trees; a local is known by its frame and its place in it. -/
namespace QueryMachine

abbrev FrameId := Nat

structure Local where
  frame : FrameId
  index : Nat
  name : String
  type : Ty

structure Frame where
  ancestors : List FrameId
  locals : List (String × Ty)
  temps : Nat

structure Frames where
  table : Array Frame

namespace Frames

def empty : Frames := ⟨#[]⟩

def frame (fs : Frames) (f : FrameId) : Frame := fs.table.getD f ⟨[], [], 0⟩

def newRoot (fs : Frames) : FrameId × Frames := (fs.table.size, ⟨fs.table.push ⟨[], [], 0⟩⟩)

def newChild (fs : Frames) (parent : FrameId) : FrameId × Frames :=
  (fs.table.size, ⟨fs.table.push ⟨parent :: (fs.frame parent).ancestors, [], 0⟩⟩)

def allocate (fs : Frames) (f : FrameId) (name : String) (type : Ty) : Local × Frames :=
  let frame := fs.frame f
  (⟨f, frame.locals.length, name, type⟩,
    ⟨fs.table.setIfInBounds f { frame with locals := frame.locals ++ [(name, type)] }⟩)

def allocateAll (fs : Frames) (f : FrameId) (locals : List (String × Ty)) : List Local × Frames :=
  let frame := fs.frame f
  ((locals.zipIdx frame.locals.length).map fun ((name, type), i) => ⟨f, i, name, type⟩,
    ⟨fs.table.setIfInBounds f { frame with locals := frame.locals ++ locals }⟩)

def root (fs : Frames) (f : FrameId) : FrameId := (fs.frame f).ancestors.getLast?.getD f

def temp (fs : Frames) (f : FrameId) (stem : String) (type : Ty) : Local × Frames :=
  let root := fs.root f
  let n := (fs.frame root).temps + 1
  let fs : Frames := ⟨fs.table.setIfInBounds root { fs.frame root with temps := n }⟩
  fs.allocate f ("$" ++ stem ++ toString n) type

def ownLocals (fs : Frames) (f : FrameId) : List Local :=
  (fs.frame f).locals.zipIdx.map fun ((name, type), i) => ⟨f, i, name, type⟩

def find? (fs : Frames) (f : FrameId) (name : String) : Option Local :=
  (f :: (fs.frame f).ancestors).findSome? fun g =>
    (fs.ownLocals g).reverse.find? (·.name == name)

def isNested (fs : Frames) (f : FrameId) : Bool := !(fs.frame f).ancestors.isEmpty

def text (fs : Frames) (f : FrameId) : String :=
  let locals := (fs.ownLocals f).map fun l => l.name ++ ": " ++ l.type.text
  Text.Layout.fields "LocalFrame" [("locals", Text.Layout.listing locals),
    ("nested", if fs.isNested f then "true" else "false")]

end Frames

end QueryMachine
