import QueryMachine.Code.Listing

/-! The verifier. It follows every reachable position with the depth of the operand stack there, in slots,
and answers the largest depth. -/
namespace QueryMachine

inductive Rejection where
  | empty
  | unboundLabel (l : Label)
  | underflow (pc : Nat) (op : Op) (needed depth : Nat)
  | depthMismatch (pc first second : Nat)
  | returnWidth (pc depth expected : Nat)
  | localOutOfRange (pc slot maxLocals : Nat)
  | protectedDepth (pc depth : Nat)
  | fallsOffEnd
  deriving DecidableEq

namespace Rejection

def text (h : Heap) : Rejection → String
  | empty => "method has no code"
  | unboundLabel l => "label " ++ Op.labelText l ++ " is never bound"
  | underflow pc op needed depth =>
    "stack underflow at pc " ++ toString pc ++ ": " ++ op.text h ++ " needs " ++ toString needed
      ++ " slots, depth is " ++ toString depth
  | depthMismatch pc first second =>
    "stack depth mismatch at pc " ++ toString pc ++ ": " ++ toString first ++ " vs " ++ toString second
  | returnWidth pc depth expected =>
    "return at pc " ++ toString pc ++ " leaves " ++ toString depth ++ " slots, expected "
      ++ toString expected
  | localOutOfRange pc slot maxLocals =>
    "local slot " ++ toString slot ++ " out of range at pc " ++ toString pc ++ " (max_locals="
      ++ toString maxLocals ++ ")"
  | protectedDepth pc depth =>
    "protected region at pc " ++ toString pc ++ " entered with " ++ toString depth
      ++ " slots on the stack"
  | fallsOffEnd => "control falls off the end of the method"

end Rejection

namespace Verify

/-- What is being verified: code with every label bound. -/
structure Candidate where
  ops : Array Op
  position : Label → Nat
  handlers : List Handler
  maxLocals : Nat
  returnWidth : Nat

/-- Depths found so far, positions still to visit, the largest depth seen. -/
structure Progress where
  depths : Array (Option Nat)
  work : List Nat
  maxStack : Nat

def merge (pc depth : Nat) (p : Progress) : Except Rejection Progress :=
  match p.depths.getD pc none with
  | some d => if d = depth then .ok p else .error (.depthMismatch pc d depth)
  | none => .ok { p with depths := p.depths.setIfInBounds pc (some depth), work := pc :: p.work }

def slots? : Op → Option (Nat × Nat)
  | .load s | .store s => some (s, s)
  | .load2 s | .store2 s => some (s, s + 1)
  | _ => none

/-- Rules of single operations: enough slots, locals in range, returns of exactly the declared width. -/
def checkOp (t : Candidate) (pc depth : Nat) (op : Op) : Except Rejection Unit :=
  if depth < op.effect.1 then .error (.underflow pc op op.effect.1 depth)
  else match slots? op with
    | some (first, last) =>
      if t.maxLocals ≤ last then .error (.localOutOfRange pc first t.maxLocals) else .ok ()
    | none => match op with
      | .ret n =>
        if depth = n ∧ n = t.returnWidth then .ok () else .error (.returnWidth pc depth t.returnWidth)
      | _ => .ok ()

def visit (t : Candidate) (pc : Nat) (p : Progress) : Except Rejection Progress :=
  match t.ops[pc]? with
  | none => .error .fallsOffEnd
  | some op => do
    let depth := (p.depths.getD pc none).getD 0
    checkOp t pc depth op
    let next := depth - op.effect.1 + op.effect.2
    let p := { p with maxStack := max p.maxStack (max next depth) }
    let p ← op.targets.foldlM (fun p l => merge (t.position l) next p) p
    if op.fallsThrough then merge (pc + 1) next p else .ok p

def explore (t : Candidate) : Nat → Progress → Except Rejection Progress
  | 0, p => .ok p
  | fuel + 1, p => match p.work with
    | [] => .ok p
    | pc :: work => do explore t fuel (← visit t pc { p with work })

def checkRegions (t : Candidate) (p : Progress) : Except Rejection Unit :=
  t.handlers.forM fun h =>
    match p.depths.getD (t.position h.start) none with
    | some (d + 1) => .error (.protectedDepth (t.position h.start) (d + 1))
    | _ => .ok ()

/-- Depths at every position that control can come to. Every position enters the work list at most once, so
one round per position, the end included, is enough. Handlers start with the fault on an otherwise empty
stack. -/
def settled (t : Candidate) : Except Rejection Progress := do
  let start : Progress := ⟨Array.replicate (t.ops.size + 1) none, [], 0⟩
  let p ← merge 0 0 start
  let p ← t.handlers.foldlM (fun p h => merge (t.position h.target) 1 p) p
  let p ← explore t (t.ops.size + 2) p
  checkRegions t p
  return p

def run (t : Candidate) : Except Rejection Nat := do return (← settled t).maxStack

end Verify

def verify (ops : Array Op) (labels : List (Option Nat)) (handlers : List Handler)
    (maxLocals returnWidth : Nat) : Except Rejection Nat :=
  if ops.isEmpty then .error .empty
  else match labels.findIdx? (·.isNone) with
    | some l => .error (.unboundLabel l)
    | none =>
      Verify.run ⟨ops, fun l => ((labels[l]?).getD none).getD 0, handlers, maxLocals, returnWidth⟩

end QueryMachine
