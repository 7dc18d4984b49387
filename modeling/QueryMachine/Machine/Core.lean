import QueryMachine.Machine.Number
import QueryMachine.Machine.World

/-! Operations that touch nothing but the operand stack and the locals. The stack is a list with its top
first. -/
namespace QueryMachine.Machine

abbrev Stack := List Value

def underflow : Fault := .failed "operand stack underflow"

def pop : Stack → Except Fault (Value × Stack)
  | v :: s => .ok (v, s)
  | [] => .error underflow

def popWide (s : Stack) : Except Fault (Value × Stack) := do
  let (_, s) ← pop s
  pop s

def popSized (width : Nat) (s : Stack) : Except Fault (Value × Stack) :=
  if width = 2 then popWide s else pop s

def popInt (h : Heap) (s : Stack) : Except Fault (Int32 × Stack) := do
  match ← pop s with
  | (.int i, s) => .ok (i, s)
  | (v, _) => .error (.classCast "int" (h.className v))

def popRef (s : Stack) : Except Fault (Value × Stack) := do
  match ← pop s with
  | (.null, _) => .error .nullPointer
  | (v, s) => .ok (v, s)

def push (v : Value) (s : Stack) : Stack := if v.width = 2 then .top :: v :: s else v :: s

def slotsOf (args : List Value) : List Value := (args.foldl (fun s v => push v s) []).reverse

inductive Next where
  | next (stack : Stack) (locals : List Value)
  | jump (pc : Nat) (stack : Stack) (locals : List Value)
  | done (v : Value)

def branch (m : Method) (taken : Bool) (l : Label) (s : Stack) (ls : List Value) : Next :=
  if taken then .jump (m.position l) s ls else .next s ls

def bit (b : Bool) : Value := .int (if b then 1 else 0)

def thrown (h : Heap) : Value → Fault
  | .throwable f => f
  | .null => .nullPointer
  | v => .classCast "Fault" (h.className v)

/-- Halve a range of cases, down to one, by whether the case in the middle has a key above `key`. -/
def bisect (cases : List (Int32 × Label)) (key : Int32) : Nat → Nat → Nat → Nat
  | 0, base, _ => base
  | fuel + 1, base, size =>
    if size ≤ 1 then base
    else
      let mid := base + size / 2
      let above := (cases[mid]?).any fun c => key < c.1
      bisect cases key fuel (if above then base else mid) (size - size / 2)

def caseFor? (cases : List (Int32 × Label)) (key : Int32) : Option Label := do
  let (k, l) ← cases[bisect cases key cases.length 0 cases.length]?
  if k = key then some l else none

def core (h : Heap) (m : Method) (op : Op) (s : Stack) (ls : List Value) : Option (Except Fault Next) :=
  match op with
  | .nop => some (.ok (.next s ls))
  | .constNull => some (.ok (.next (.null :: s) ls))
  | .const v => some (.ok (.next (push v s) ls))
  | .load i => some (.ok (.next ((ls[i]?).getD .null :: s) ls))
  | .load2 i => some (.ok (.next (push ((ls[i]?).getD .null) s) ls))
  | .store i => some do
    let (v, s) ← pop s
    .ok (.next s (ls.set i v))
  | .store2 i => some do
    let (v, s) ← popWide s
    .ok (.next s ((ls.set i v).set (i + 1) .top))
  | .pop n => some (.ok (.next (s.drop n) ls))
  | .dup n => some (.ok (.next (s.take n ++ s) ls))
  | .dupX n under => some
    (if s.length < n + under then .error underflow
    else .ok (.next (s.take (n + under) ++ s.take n ++ s.drop (n + under)) ls))
  | .swap => some (match s with
    | a :: b :: s => .ok (.next (b :: a :: s) ls)
    | _ => .error underflow)
  | .arith a k => some do
    let (y, s) ← popSized k.width s
    let (x, s) ← popSized k.width s
    .ok (.next (push (← Number.arith a k x y) s) ls)
  | .neg k => some do
    let (v, s) ← popSized k.width s
    .ok (.next (push (← Number.negate h k v) s) ls)
  | .cmp k => some do
    let (y, s) ← popSized k.width s
    let (x, s) ← popSized k.width s
    .ok (.next (push (← Number.compare k x y) s) ls)
  | .convert source target => some do
    let (v, s) ← popSized source.width s
    .ok (.next (push (← Number.convert h source target v) s) ls)
  | .narrow p => some do
    let (v, s) ← popInt h s
    .ok (.next (.int (Number.narrow p v) :: s) ls)
  | .box p => some do
    let (v, s) ← popSized p.width s
    .ok (.next ((← Number.box h p v) :: s) ls)
  | .unbox p => some do
    let (v, s) ← pop s
    .ok (.next (push (← Number.unbox h p v) s) ls)
  | .checkCast cls => some (match s with
    | v :: _ =>
      if v.isObject && !h.isInstance v cls then .error (.classCast cls (h.className v))
      else .ok (.next s ls)
    | [] => .ok (.next s ls))
  | .instanceOf cls => some do
    let (v, s) ← pop s
    .ok (.next (bit (h.isInstance v cls) :: s) ls)
  | .jump l => some (.ok (.jump (m.position l) s ls))
  | .ifZero c l => some do
    let (v, s) ← popInt h s
    .ok (branch m (c.test (compare v 0)) l s ls)
  | .ifCmp c l => some do
    let (b, s) ← popInt h s
    let (a, s) ← popInt h s
    .ok (branch m (c.test (compare a b)) l s ls)
  | .ifNull l => some do
    let (v, s) ← pop s
    .ok (branch m v.isNull l s ls)
  | .ifNonNull l => some do
    let (v, s) ← pop s
    .ok (branch m (!v.isNull) l s ls)
  | .lookup cases default => some do
    let (k, s) ← popInt h s
    .ok (.jump (m.position ((caseFor? cases k).getD default)) s ls)
  | .throw => some do
    let (v, _) ← pop s
    .error (thrown h v)
  | .ret n => some (if n = 0 then .ok (.done .null) else do
    let (v, _) ← popSized n s
    .ok (.done v))
  | _ => none

end QueryMachine.Machine
