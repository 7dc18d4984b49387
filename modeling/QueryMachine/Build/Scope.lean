import QueryMachine.Build.Logic
import QueryMachine.Ty.Unify

/-! Blocks with locals of their own and early exits, which are checked in order. -/
namespace QueryMachine

inductive Scope.Item where
  | exec (s : Seq)
  | exit (test result : Expr)

structure Scope where
  frame : FrameId
  items : List Scope.Item

namespace Scope

def new (parent : FrameId) : Build Scope := return ⟨← Build.newChild parent, []⟩

def find (frame : FrameId) (name : String) : Build Local := do
  match (← get).frames.find? frame name with
  | some l => return l
  | none => Build.fail (.invalidArgument ("unknown local '" ++ name ++ "'"))

def exec (s : Scope) (item : Seq) : Scope := { s with items := s.items ++ [.exec item] }

def exit (s : Scope) (test result : Expr) : Scope := { s with items := s.items ++ [.exit test result] }

def bind (s : Scope) (name : Option String) (value : Expr) : Build (Local × Scope) := do
  let l ← match name with
    | some name => Build.allocate s.frame name value.type
    | none => Build.temp s.frame "v" value.type
  return (l, s.exec (l.write value))

def results (s : Scope) : List Expr := s.items.filterMap fun
  | .exit _ result => some result
  | .exec _ => none

def generateItem (type : Ty) (done : Label) : Item → Emit Unit
  | .exec s => s
  | .exit test result => do
    let next ← Emit.newLabel
    Build.branchFalse test next
    result.generateAs type
    Emit.jump done
    Emit.mark next

def value (s : Scope) (result : Expr) : Build Expr := do
  let type ← Build.lift (Ty.unifyAll ((s.results ++ [result]).map (·.type)))
  return ⟨type, do
    let done ← Emit.newLabel
    Emit.enterFrame s.frame
    s.items.forM (generateItem type done)
    result.generateAs type
    Emit.mark done
    Emit.exitFrame s.frame⟩

def sequence (s : Scope) : Build Seq := do
  if s.results.any (!·.type.isVoid) then
    Build.fail (.invalidArgument "a statement scope cannot exit with a value")
  return do
    let done ← Emit.newLabel
    Emit.enterFrame s.frame
    s.items.forM (generateItem .void done)
    Emit.mark done
    Emit.exitFrame s.frame

def block (s : Scope) : Build Seq := do
  if !s.results.isEmpty then Build.fail (.invalidArgument "exits require a completed scope")
  return do
    Emit.enterFrame s.frame
    s.items.forM (generateItem .void 0)
    Emit.exitFrame s.frame

end Scope

end QueryMachine
