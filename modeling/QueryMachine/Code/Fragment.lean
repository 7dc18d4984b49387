import QueryMachine.Code.Emitter
import QueryMachine.Code.Verify

/-! Code written by hand: operations with the places of labels between them. -/
namespace QueryMachine

def Op.relabel (f : Label → Label) : Op → Op
  | .jump l => .jump (f l)
  | .ifZero c l => .ifZero c (f l)
  | .ifCmp c l => .ifCmp c (f l)
  | .ifNull l => .ifNull (f l)
  | .ifNonNull l => .ifNonNull (f l)
  | .lookup cases default => .lookup (cases.map fun (k, l) => (k, f l)) (f default)
  | op => op

inductive Fragment.Item where
  | op (o : Op)
  | mark (l : Label)

structure Fragment where
  items : List Fragment.Item

namespace Fragment

def Item.labels : Item → List Label
  | .op o => o.targets
  | .mark l => [l]

def labelCount (ls : List Label) : Nat := ls.foldl (fun n l => max n (l + 1)) 0

def emitWith (f : Label → Label) (c : Fragment) : Emit Unit :=
  c.items.forM fun
    | .op o => Emit.op (o.relabel f)
    | .mark l => Emit.mark (f l)

def emit (c : Fragment) : Emit Unit := do
  let labels ← Emit.newLabels (labelCount (c.items.flatMap Item.labels))
  c.emitWith fun l => labels.getD l 0

def layout (c : Fragment) (labels : Nat) : Array Op × Array (Option Nat) :=
  c.items.foldl (fun (ops, table) item =>
    match item with
    | .op o => (ops.push o, table)
    | .mark l => (ops, table.setIfInBounds l (some ops.size))) (#[], Array.replicate labels none)

/-- The method the code makes, and the verdict of the verifier. Labels without a place stand for the start. -/
def assemble (c : Fragment) (ref : MethodRef) (handlers : List Handler) (maxLocals : Nat) :
    Except Rejection Nat × Method :=
  let used := c.items.flatMap Item.labels ++ handlers.flatMap fun h => [h.start, h.stop, h.target]
  let (ops, table) := c.layout (labelCount used)
  let verdict := verify ops table.toList handlers maxLocals ref.returns.width
  let maxStack := match verdict with
    | .ok n => n
    | .error _ => 0
  (verdict, ⟨ref, ops, table.map (·.getD 0), handlers, maxLocals, maxStack⟩)

end Fragment

end QueryMachine
