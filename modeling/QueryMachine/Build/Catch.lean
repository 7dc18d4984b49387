import QueryMachine.Session

/-! Protected regions. A fault empties the stack, so a region starts on an empty one; these constructs stand
at statement level only. -/
namespace QueryMachine

def Build.outcome (value : Expr) : Expr :=
  ⟨(Ty.result value.type).nonNull, do
    let start ← Emit.newLabel
    let stop ← Emit.newLabel
    let caught ← Emit.newLabel
    let done ← Emit.newLabel
    Emit.mark start
    value.generate
    Emit.box value.type
    Emit.op (.native .outcomeSuccess)
    Emit.mark stop
    Emit.jump done
    Emit.mark caught
    Emit.op (.native .outcomeFailure)
    Emit.mark done
    Emit.region start stop caught .any⟩

structure Clause where
  filters : List Catch
  fault : Local
  body : Seq

/-- Clauses are tried in order. `always` runs after the body or a clause, and before a fault that escapes is
raised again. -/
structure Attempt where
  frame : FrameId
  body : Option Seq
  clauses : List Clause
  always : Option Seq

namespace Attempt

def new (parent : FrameId) : Build Attempt := return ⟨← Build.newChild parent, none, [], none⟩

def newFault (a : Attempt) (name : String) : Build Local := Build.allocate a.frame name .throwable

def generateClause (start stop finish : Label) (c : Clause) : Emit Unit := do
  let entry ← Emit.newLabel
  Emit.mark entry
  Emit.op (.store (← Emit.slotOf c.fault))
  c.body
  Emit.jump finish
  c.filters.forM (Emit.region start stop entry)

def build (a : Attempt) : Build Seq := do
  match a.body with
  | none => Build.fail (.invalidArgument "try block has no body")
  | some body =>
    if a.clauses.any (·.filters.isEmpty) then
      Build.fail (.invalidArgument "catch clause without fault types")
    let always ← a.always.mapM fun s => return (s, ← Build.temp a.frame "rethrow" .throwable)
    return do
      Emit.enterFrame a.frame
      let start ← Emit.newLabel
      let stop ← Emit.newLabel
      let clausesEnd ← Emit.newLabel
      let finish ← Emit.newLabel
      Emit.mark start
      body
      Emit.mark stop
      Emit.jump finish
      a.clauses.forM (generateClause start stop finish)
      Emit.mark clausesEnd
      always.forM fun (s, rethrow) => do
        let entry ← Emit.newLabel
        let slot ← Emit.slotOf rethrow
        Emit.mark entry
        Emit.op (.store slot)
        s
        Emit.ops [.load slot, .throw]
        Emit.region start clausesEnd entry .any
      Emit.mark finish
      always.forM (·.1)
      Emit.exitFrame a.frame

end Attempt

end QueryMachine
