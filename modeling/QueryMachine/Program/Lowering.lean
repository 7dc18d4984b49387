import QueryMachine.Build.Access
import QueryMachine.Build.Arithmetic
import QueryMachine.Build.Collection
import QueryMachine.Build.Comparison
import QueryMachine.Build.Loop
import QueryMachine.Build.Record
import QueryMachine.Build.Switch
import QueryMachine.Program.Operator
import QueryMachine.Resolve

/-! Operator trees as expressions. The lowering of a node is put together from the lowerings of its arguments;
an error carries the innermost location that is known. -/
namespace QueryMachine

/-- What the nodes of one entry point can refer to. -/
structure Lowering.Env where
  types : ContextId
  frame : FrameId
  arguments : List (String × Local)
  timeout : Expr
  bindings : List (String × Expr)

abbrev Lowering := Lowering.Env → Build Expr

namespace Lowering

/-- An argument, with a lowering in place of each node. -/
inductive Operand where
  | node (l : Lowering)
  | nodes (ls : List Lowering)
  | name (s : String)
  | names (ss : List String)
  | value (v : Value)
  | type (t : ValueType)

structure Operands where
  operator : Operator
  args : List Operand

namespace Operands

def missing {α : Type} (o : Operands) (what : String) (i : Nat) : Build α :=
  Build.fail (.invalidArgument (o.operator.name ++ " expects " ++ what ++ " at position " ++ toString i
    ++ ", got " ++ toString o.args.length ++ " argument(s)"))

def node (o : Operands) (i : Nat) (env : Env) : Build Expr :=
  match o.args[i]? with
  | some (.node l) => l env
  | _ => o.missing "an operand" i

def nodes (o : Operands) (i : Nat) (env : Env) : Build (List Expr) :=
  match o.args[i]? with
  | some (.nodes ls) => ls.mapM (· env)
  | _ => o.missing "an operand list" i

def name (o : Operands) (i : Nat) : Build String :=
  match o.args[i]? with
  | some (.name s) => return s
  | _ => o.missing "a name" i

def names (o : Operands) (i : Nat) : Build (List String) :=
  match o.args[i]? with
  | some (.names ss) => return ss
  | _ => o.missing "a name list" i

def value (o : Operands) (i : Nat) : Build Value :=
  match o.args[i]? with
  | some (.value v) => return v
  | _ => o.missing "a literal" i

def type? (o : Operands) (i : Nat) (env : Env) : Build (Option Ty) :=
  match o.args[i]? with
  | some (.type t) => return some (← Resolve.value env.types t)
  | none => return none
  | _ => o.missing "a type" i

def body (o : Operands) (i : Nat) : Build Lowering :=
  match o.args[i]? with
  | some (.node l) => return l
  | _ => o.missing "an operand" i

def entries (o : Operands) (env : Env) : Build (List (String × Expr)) := do
  let names ← o.names 0
  let values ← o.nodes 1 env
  if names.length ≠ values.length then
    Build.fail (.invalidArgument (o.operator.name ++ " has " ++ toString names.length ++ " names for "
      ++ toString values.length ++ " values"))
  return names.zip values

def binary (o : Operands) (env : Env) (combine : Expr → Expr → Build Expr) : Build Expr := do
  let left ← o.node 0 env
  let right ← o.node 1 env
  combine left right

end Operands

def localNamed (name : String) (env : Env) : Build Expr := do
  match env.bindings.lookup name with
  | some e => return e
  | none => return (← Scope.find env.frame name).read

def argumentNamed (name : String) (env : Env) : Build Expr :=
  match env.arguments.lookup name with
  | some l => return l.read
  | none => Build.fail (.invalidArgument ("unknown argument '" ++ name ++ "'"))

def record (entries : List (String × Expr)) (env : Env) : Build Expr := do
  let r ← entries.foldlM (fun r (name, value) => RecordDraft.add r name value) (← RecordDraft.new env.frame)
  r.value

def transform (o : Operands) (env : Env) : Build Expr := do
  let iterable ← o.node 0 env
  let name ← o.name 1
  let body ← o.body 2
  Build.transform env.frame iterable fun item => body { env with bindings := (name, item) :: env.bindings }

def apply (o : Operands) (location : Location) : Lowering := fun env =>
  match o.operator with
  | .literal => do Build.constant (← o.value 0)
  | .null => do return .null ((← o.type? 0 env).getD .any)
  | .array => do return Build.list (← o.nodes 0 env)
  | .map => do
    let entries ← o.entries env
    let keys ← entries.mapM fun (name, _) => Build.constant (.string name)
    return Build.map (keys.zip (entries.map (·.2)))
  | .record => do record (← o.entries env) env
  | .property => do
    let target ← o.node 0 env
    Build.property env.frame target (← o.name 1)
  | .index => o.binary env (Build.index env.frame)
  | .add => o.binary env (Build.arithmetic .add)
  | .sub => o.binary env (Build.arithmetic .sub)
  | .mult => o.binary env (Build.arithmetic .mul)
  | .div => o.binary env (Build.arithmetic .div)
  | .mod => o.binary env (Build.arithmetic .rem)
  | .negate => do Build.negate (← o.node 0 env)
  | .not => do Build.not (← o.node 0 env)
  | .and => do Build.and (← o.nodes 0 env)
  | .or => do Build.or (← o.nodes 0 env)
  | .eq => o.binary env fun l r => return Build.equality l r false
  | .neq => o.binary env fun l r => return Build.equality l r true
  | .lt => o.binary env fun l r => return Build.ordered .lt l r location
  | .ltEq => o.binary env fun l r => return Build.ordered .le l r location
  | .gt => o.binary env fun l r => return Build.ordered .gt l r location
  | .gtEq => o.binary env fun l r => return Build.ordered .ge l r location
  | .compare => o.binary env fun l r => return Build.compare l r location
  | .isNull => do return Build.isNull (← o.node 0 env)
  | .coalesce => do Build.coalesce (← o.nodes 0 env)
  | .cond => do
    let test ← o.node 0 env
    let yes ← o.node 1 env
    let no ← o.node 2 env
    Build.select [(test, yes)] no
  | .local => do localNamed (← o.name 0) env
  | .argument => do argumentNamed (← o.name 0) env
  | .transform => transform o env
  | .length => do Build.length env.frame (← o.node 0 env)
  | .resolve => do Build.resolve env.frame env.timeout (← o.node 0 env)
  | .cast => do
    let value ← o.node 0 env
    match ← o.type? 1 env with
    | some type => Build.cast value type
    | none => Build.fail (.invalidArgument "CAST requires a target type")
  | .call | .invoke | .subquery => Build.fail (.unrecognizedOperator o.operator.name)

def located (location : Location) (l : Lowering) : Lowering := fun env =>
  if location = .unknown then l env
  else tryCatch (l env) fun e => throw (e.locate location)

mutual

def ofNode : Node → Lowering
  | .mk operator args location => located location (apply ⟨operator, ofArgs args⟩ location)

def ofArg : Arg → Operand
  | .node n => .node (ofNode n)
  | .nodes ns => .nodes (ofNodes ns)
  | .name s => .name s
  | .names ss => .names ss
  | .value v => .value v
  | .type t => .type t

def ofArgs : List Arg → List Operand
  | [] => []
  | a :: rest => ofArg a :: ofArgs rest

def ofNodes : List Node → List Lowering
  | [] => []
  | n :: rest => ofNode n :: ofNodes rest

end

end Lowering

end QueryMachine
