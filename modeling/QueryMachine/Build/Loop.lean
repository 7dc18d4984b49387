import QueryMachine.Access.Index
import QueryMachine.Build.Scope

/-! Loops over whatever can be seen as a list, by position. A null source has no elements. -/
namespace QueryMachine

inductive Loop.Item where
  | exec (s : Seq)
  | stop (test : Expr)
  | skip (test : Expr)

structure Loop where
  frame : FrameId
  iterable : Expr
  list : Expr
  source : Local
  view : Local
  index : Local
  item : Local
  items : List Loop.Item

namespace Loop

def new (parent : FrameId) (iterable : Expr) : Build Loop := do
  match IterateAccess.of? iterable.type with
  | none => Build.fail (.notIterable iterable.type.text)
  | some a =>
    let frame ← Build.newChild parent
    let source ← Build.temp frame "source" iterable.type.nonNull
    let list ← a.toList source.read
    let view ← Build.temp frame "list" list.type.nonNull
    let index ← Build.temp frame "index" .int32
    let item ← Build.temp frame "item" a.itemType
    return { frame, iterable, list, source, view, index, item, items := [] }

def add (l : Loop) (item : Item) : Loop := { l with items := l.items ++ [item] }

def branchTrue (test : Expr) (target : Label) : Emit Unit := do
  let stay ← Emit.newLabel
  Build.branchFalse test stay
  Emit.jump target
  Emit.mark stay

def generateItem (exit advance : Label) : Item → Emit Unit
  | .exec s => s
  | .stop test => branchTrue test exit
  | .skip test => branchTrue test advance

def build (l : Loop) : Seq := do
  Emit.enterFrame l.frame
  let top ← Emit.newLabel
  let advance ← Emit.newLabel
  let exit ← Emit.newLabel
  l.iterable.generate
  let _ ← Emit.nullTest l.iterable.type exit
  Emit.op (.store (← Emit.slotOf l.source))
  l.list.generate
  let view ← Emit.slotOf l.view
  let index ← Emit.slotOf l.index
  let item ← Emit.slotOf l.item
  Emit.ops [.store view, .const (.int 0), .store index]
  Emit.mark top
  Emit.ops [.load index, .load view, .native .length, .ifCmp .ge exit,
    .load view, .load index, .native .listGet]
  Emit.downcast l.item.type
  Emit.op (.store item)
  l.items.forM (generateItem exit advance)
  Emit.mark advance
  Emit.ops [.load index, .const (.int 1), .arith .add .int, .store index, .jump top]
  Emit.mark exit
  Emit.exitFrame l.frame

def value (l : Loop) (result : Expr) : Expr := result.after l.build

end Loop

namespace Build

def transform (frame : FrameId) (iterable : Expr) (body : Expr → Build Expr) : Build Expr := do
  let scope ← Scope.new frame
  let loop ← Loop.new scope.frame iterable
  let mapped ← body loop.item.read
  let list : Expr := ⟨(Ty.list mapped.type.nonNull).nonNull, Emit.op (.native .newList)⟩
  let (out, scope) ← scope.bind none list
  let held ← temp loop.frame "mapped" mapped.type.boxed
  let keep : Seq := do
    let skip ← Emit.newLabel
    let value ← Emit.slotOf held
    let target ← Emit.slotOf out
    if mapped.type.isNullable then Emit.ops [.load value, .ifNull skip]
    Emit.ops [.load target, .load value, .native .listAdd]
    Emit.mark skip
  let loop := (loop.add (.exec (held.write mapped))).add (.exec keep)
  (scope.exec loop.build).value out.read

def first (frame : FrameId) (iterable : Expr) : Build Expr := do
  let scope ← Scope.new frame
  let loop ← Loop.new scope.frame iterable
  let (found, scope) ← scope.bind none (.null loop.item.type)
  let loop := (loop.add (.exec (found.write loop.item.read))).add (.stop (.boolean true))
  (scope.exec loop.build).value found.read

end Build

end QueryMachine
