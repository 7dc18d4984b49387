import QueryMachine.Build.Logic
import QueryMachine.Text.Quoted
import QueryMachine.Ty.Unify

/-! Choice among values: by an integer, by a text without regard to case, or by the first test that holds. A
null selector takes the default. -/
namespace QueryMachine

inductive Switch where
  | integers (selector : Expr) (cases : List (Int32 × Expr))
  | strings (selector : Expr) (cases : List (String × Expr))

namespace Switch

def integer (selector : Expr) : Build Switch := do
  let integral := selector.type.prim?.any (·.kind.isInteger)
  if !integral && !selector.type.isAny then
    Build.fail (.incompatibleCast "int32" selector.type.text)
  return .integers selector []

def string (selector : Expr) : Build Switch := do
  if !selector.type.isAny && selector.type.rep != Ty.string.rep then
    Build.fail (.incompatibleCast "string" selector.type.text)
  return .strings selector []

def addInteger (s : Switch) (key : Int32) (result : Expr) : Build Switch :=
  match s with
  | .integers selector cases =>
    if cases.any (·.1 == key) then
      Build.fail (.invalidArgument ("duplicate case Int(" ++ toString key.toInt ++ ")"))
    else return .integers selector (cases ++ [(key, result)])
  | .strings .. => Build.fail (.invalidArgument "integer case on a string switch")

def addString (s : Switch) (key : String) (result : Expr) : Build Switch :=
  match s with
  | .strings selector cases =>
    if cases.any (fun c => Text.Uppercase.text c.1 == Text.Uppercase.text key) then
      Build.fail (.invalidArgument ("duplicate case Str(" ++ Text.Quoted.text key ++ ")"))
    else return .strings selector (cases ++ [(key, result)])
  | .integers .. => Build.fail (.invalidArgument "string case on an integer switch")

def selector : Switch → Expr
  | .integers selector _ | .strings selector _ => selector

def results : Switch → List Expr
  | .integers _ cases => cases.map (·.2)
  | .strings _ cases => cases.map (·.2)

def dispatch (s : Switch) (labels : List Label) (default : Label) : Emit Unit :=
  match s with
  | .integers selector cases => do
    let _ ← Emit.castOrNull .int32 selector.type default
    Emit.integerSwitch ((cases.map (·.1)).zip labels) default
  | .strings selector cases => do
    Emit.cast .string selector.type
    Emit.stringSwitch ((cases.map (·.1)).zip labels) default

def value (s : Switch) (default : Expr) : Build Expr := do
  let type ← Build.lift (Ty.unifyAll ((s.results ++ [default]).map (·.type)))
  return ⟨type, do
    let fallback ← Emit.newLabel
    let done ← Emit.newLabel
    let labels ← Emit.newLabels s.results.length
    s.selector.generate
    s.dispatch labels fallback
    (labels.zip s.results).forM fun (l, result) => do
      Emit.mark l
      result.generateAs type
      Emit.jump done
    Emit.mark fallback
    default.generateAs type
    Emit.mark done⟩

end Switch

def Build.select (arms : List (Expr × Expr)) (default : Expr) : Build Expr := do
  let type ← lift (Ty.unifyAll ((arms.map (·.2) ++ [default]).map (·.type)))
  return ⟨type, do
    let done ← Emit.newLabel
    arms.forM fun (test, value) => do
      let next ← Emit.newLabel
      branchFalse test next
      value.generateAs type
      Emit.jump done
      Emit.mark next
    default.generateAs type
    Emit.mark done⟩

end QueryMachine
