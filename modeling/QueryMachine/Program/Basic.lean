import QueryMachine.Build.Catch
import QueryMachine.Machine.Exec
import QueryMachine.Program.Lowering
import QueryMachine.Unit.Load

/-! Programs: named operator trees, compiled to static methods of one unit and invoked by name. Each takes the
timeout in force and then its arguments; a statement returns the outcome of its tree. -/
namespace QueryMachine

structure Entry where
  name : String
  params : List (String × ValueType)
  node : Node
  isStatement : Bool

structure Signature where
  name : String
  params : List Ty
  isStatement : Bool

/-- Entry points accumulate until the program is built. -/
structure Compiler where
  session : Session
  context : ContextId
  unit : UnitDraft
  signatures : List Signature

namespace Compiler

def unitName : String := "program"

/-- A compiler that resolves types in a context of `types`, and so knows what the contexts above it have
resolved for other compilers. -/
def withTypes (config : Config) (heap : Heap) (types : Registry) (context : ContextId) : Compiler :=
  ⟨{ Session.new config heap with types }, context, .new unitName, []⟩

def new (config : Config) (heap : Heap) : Compiler := withTypes config heap .new 0

structure Lowered where
  draft : MethodDraft
  types : List Ty
  value : Expr

def lower (context : ContextId) (e : Entry) : Build Lowered := do
  Build.checkOpen
  let types ← e.params.mapM fun (_, t) => Resolve.value context t
  let params := ("$timeout", Ty.timeout) :: (e.params.map (·.1)).zip types
  let draft ← Build.newMethod unitName e.name none params .any
  match draft.locals with
  | [] => Build.fail (.internal "entry point without a timeout")
  | timeout :: locals =>
    let arguments := (e.params.map (·.1)).zip locals
    let value ← Lowering.ofNode e.node ⟨context, draft.frame, arguments, timeout.read, []⟩
    return ⟨draft, types, value⟩

def method (context : ContextId) (e : Entry) : Build (MethodDraft × List Ty) := do
  let l ← lower context e
  return (l.draft.withValue (if e.isStatement then Build.outcome l.value else l.value), l.types)

def add (c : Compiler) (e : Entry) : Except Error Unit × Compiler :=
  if c.signatures.any (·.name == e.name) then
    (.error (.of (if c.session.built then .alreadyBuilt
      else .invalidArgument ("entry point '" ++ e.name ++ "' is already defined"))), c)
  else
    let (answer, session) := (method c.context e).run c.session
    let c := { c with session }
    match answer with
    | .error err => (.error err, c)
    | .ok (m, params) => match c.unit.addMethod m with
      | .error err => (.error err, c)
      | .ok unit =>
        (.ok (), { c with unit, signatures := c.signatures ++ [⟨e.name, params, e.isStatement⟩] })

end Compiler

structure EntryPoint where
  name : String
  method : Method
  params : List Ty
  isStatement : Bool
  timeout : Option Nat

structure Program where
  library : Library
  entries : List EntryPoint

namespace EntryPoint

def text (e : EntryPoint) : String :=
  Text.Layout.fields "EntryPoint" [("name", Text.Quoted.text e.name),
    ("params", Text.Layout.listing (e.params.map Ty.detail)),
    ("statement", if e.isStatement then "true" else "false")]

/-- Arguments come boxed or raw; a primitive parameter takes the raw form of its kind and any other the box. -/
def coerce (h : Heap) (type : Ty) (arg : Value) : Except Fault Value :=
  let arg := match arg with
    | .int v => .boxed (.int v)
    | .long v => .boxed (.long v)
    | .float v => .boxed (.float v)
    | .double v => .boxed (.double v)
    | v => v
  match type with
  | .prim p => Number.unbox h p arg
  | _ => .ok arg

def runWith (lib : Library) (fuel : Nat) (e : EntryPoint) (timeout : Timeout) (args : List Value) :
    Run Value := do
  if args.length ≠ e.params.length then
    Run.fault (.failed (e.name ++ " expects " ++ toString e.params.length ++ " argument(s), got "
      ++ toString args.length))
  let h ← Run.heap
  let values ← (e.params.zip args).mapM fun (type, arg) => Run.lift (coerce h type arg)
  Machine.invoke lib fuel e.method (.timeout timeout :: values)

def invokeWith (lib : Library) (e : EntryPoint) (timeout : Timeout) (args : List Value) : Run Value :=
  e.runWith lib Machine.patience timeout args

def deadline (e : EntryPoint) (h : Heap) : Timeout :=
  match e.timeout with
  | some ms => h.timeoutAfter ms
  | none => ⟨none⟩

def run (lib : Library) (fuel : Nat) (e : EntryPoint) (args : List Value) : Run Value := do
  let h ← Run.heap
  e.runWith lib fuel (e.deadline h) args

end EntryPoint

namespace Program

def text (p : Program) : String :=
  Text.Layout.fields "CompiledProgram"
    [("entries", Text.Layout.listing (p.entries.map fun e => Text.Quoted.text e.name))]

def entry? (p : Program) (name : String) : Option EntryPoint := p.entries.find? (·.name == name)

def run (p : Program) (fuel : Nat) (name : String) (args : List Value) : Run Value :=
  match p.entry? name with
  | some e => e.run p.library fuel args
  | none => Run.fault (.failed ("no entry point named '" ++ name ++ "'"))

def invoke (p : Program) (name : String) (args : List Value) : Run Value := p.run Machine.patience name args

end Program

namespace Compiler

def entryPoint (lib : Library) (timeout : Option Nat) (s : Signature) : Except Error EntryPoint :=
  match lib.class? unitName with
  | none => .error (.of (.internal "program unit was not loaded"))
  | some c => match c.method? s.name with
    | none => .error (.of (.internal ("entry point '" ++ s.name ++ "' was not loaded")))
    | some m => .ok ⟨s.name, m, s.params, s.isStatement, timeout⟩

def build (c : Compiler) : Except Error (Program × World) × Session :=
  let action : Build (Program × World) := do
    Build.addUnit c.unit
    let loaded ← Load.build
    let timeout := (← get).config.timeout?
    let entries ← Build.lift (c.signatures.mapM (entryPoint loaded.library timeout))
    return (⟨loaded.library, entries.mergeSort fun a b => decide (a.name ≤ b.name)⟩, loaded.world)
  action.run c.session

end Compiler

end QueryMachine
