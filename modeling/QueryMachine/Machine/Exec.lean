import QueryMachine.Machine.Dispatch

/-! Running methods. A fault goes to the first handler around it that takes it, with nothing but the fault on
the stack, and otherwise to the caller. -/
namespace QueryMachine.Machine

def maxDepth : Nat := 256

def classNamed (lib : Library) (name : String) : Except Fault Class :=
  match lib.class? name with
  | some c => .ok c
  | none => .error (.failed ("class " ++ name ++ " is not loaded"))

def methodNamed (lib : Library) (cls name : String) : Except Fault Method := do
  match (← classNamed lib cls).method? name with
  | some m => .ok m
  | none => .error (.failed ("method " ++ cls ++ "." ++ name ++ " is not loaded"))

structure Activation where
  method : Method
  pc : Nat
  stack : Stack
  locals : List Value

def Activation.start (m : Method) (args : List Value) : Activation :=
  ⟨m, 0, [], args ++ List.replicate (m.maxLocals - args.length) .null⟩

def outer (lib : Library) (call : Call) (apply : Callback → Value → Run Value) (op : Op) (s : Stack) :
    Run Stack := do
  let h ← Run.heap
  match op with
  | .new cls =>
    let c ← Run.lift (classNamed lib cls)
    return (← Run.alloc (·.newObject c.instantiate)) :: s
  | .getField f =>
    let (target, s) ← Run.lift (popRef s)
    match target with
    | .object a => return push (← Run.orFault (.propertyNotFound f.name) ((h.object a).get? f.name)) s
    | v => Run.fault (.classCast f.cls (h.className v))
  | .putField f =>
    let (v, s) ← Run.lift (popSized f.rep.width s)
    let (target, s) ← Run.lift (popRef s)
    match target with
    | .object a =>
      let o ← Run.orFault (.propertyNotFound f.name) ((h.object a).put? f.name v)
      Run.setHeap (h.setObject a o)
      return s
    | v => Run.fault (.classCast f.cls (h.className v))
  | .getStatic f =>
    let c ← Run.lift (classNamed lib f.cls)
    return push (← Run.orFault (.propertyNotFound f.text) ((← get).static? c.name f.name)) s
  | .putStatic f =>
    let (v, s) ← Run.lift (popSized f.rep.width s)
    let c ← Run.lift (classNamed lib f.cls)
    let (found, w) := (← get).setStatic c.name f.name v
    if found then
      set w
      return s
    else Run.fault (.propertyNotFound f.text)
  | .invoke m =>
    let callee ← Run.lift (methodNamed lib m.cls m.name)
    let v ← call callee (s.take m.argSlots).reverse
    let s := s.drop m.argSlots
    return if m.returns.width = 0 then s else push v s
  | .function m =>
    let callee ← Run.lift (methodNamed lib m.cls m.name)
    return .function m.cls callee.name :: s
  | .native n => native apply n s
  | .dynamic site d => dynamic lib call site d s
  | _ => return s

def step (lib : Library) (call : Call) (apply : Callback → Value → Run Value) (op : Op)
    (a : Activation) : Run Next := do
  match core (← Run.heap) a.method op a.stack a.locals with
  | some r => Run.lift r
  | none => return .next (← outer lib call apply op a.stack) a.locals

/-- A call from code that runs at a depth of nested calls; `run` is for the activation it starts. -/
def enter (run : Nat → Activation → Run Value) (depth : Nat) : Call := fun m args =>
  if maxDepth ≤ depth then Run.fault (.failed "call depth exceeded") else run (depth + 1) (.start m args)

def continueWith (lib : Library) (run : Nat → Activation → Run Value) (f : Callback) (v : Value) :
    Run Value := do
  enter run 0 (← Run.lift (methodNamed lib f.cls f.name)) (slotsOf [v])

def exec (lib : Library) : Nat → Nat → Activation → Run Value
  | 0, _, _ => Run.never
  | fuel + 1, depth, a => match a.method.ops[a.pc]? with
    | none => Run.fault (.failed "control fell off the end of a method")
    | some op => fun w =>
      match step lib (enter (exec lib fuel) depth) (continueWith lib (exec lib fuel)) op a w with
      | (.ok (.next s ls), w) => exec lib fuel depth { a with pc := a.pc + 1, stack := s, locals := ls } w
      | (.ok (.jump pc s ls), w) => exec lib fuel depth { a with pc, stack := s, locals := ls } w
      | (.ok (.done v), w) => (.ok v, w)
      | (.error (.fault f), w) => match a.method.handlerFor? a.pc f with
        | some pc => exec lib fuel depth { a with pc, stack := [.throwable f] } w
        | none => (.error (.fault f), w)
      | (.error .never, w) => (.error .never, w)

def patience : Nat := 50000000

def invoke (lib : Library) (fuel : Nat) (m : Method) (args : List Value) : Run Value :=
  exec lib fuel 1 (.start m (slotsOf args))

def invokeNamed (lib : Library) (fuel : Nat) (cls name : String) (args : List Value) : Run Value := do
  invoke lib fuel (← Run.lift (methodNamed lib cls name)) args

end QueryMachine.Machine
