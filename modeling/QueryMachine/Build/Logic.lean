import QueryMachine.Expr.Place
import QueryMachine.Session

/-! Boolean logic and null. Where a truth value is needed, null counts as false. -/
namespace QueryMachine.Build

def branchFalse (test : Expr) (isFalse : Label) : Emit Unit := do
  test.generate
  if test.type.isAny then
    let _ ← Emit.castOrNull .boolean test.type isFalse
    Emit.op (.ifZero .eq isFalse)
  else Emit.testFalse test.type isFalse

def checkTruth (t : Ty) : Build Unit :=
  if t.isAny || t.prim?.isSome then pure () else fail (.incompatibleCast "boolean" t.text)

def choose (first second : Int32) (other done : Label) : Emit Unit := do
  Emit.ops [.const (.int first), .jump done]
  Emit.mark other
  Emit.op (.const (.int second))
  Emit.mark done

def truth (e : Expr) : Build Expr := do
  checkTruth e.type
  if e.type = .boolean then return e
  return ⟨.boolean, do
    let f ← Emit.newLabel
    let done ← Emit.newLabel
    branchFalse e f
    choose 1 0 f done⟩

def not (e : Expr) : Build Expr := do
  checkTruth e.type
  return ⟨.boolean, do
    let f ← Emit.newLabel
    let done ← Emit.newLabel
    branchFalse e f
    choose 0 1 f done⟩

def and (es : List Expr) : Build Expr := do
  if es.isEmpty then fail (.invalidArgument "and requires at least one operand")
  es.forM fun e => checkTruth e.type
  return ⟨.boolean, do
    let f ← Emit.newLabel
    let done ← Emit.newLabel
    es.forM (branchFalse · f)
    choose 1 0 f done⟩

def or (es : List Expr) : Build Expr := do
  if es.isEmpty then fail (.invalidArgument "or requires at least one operand")
  es.forM fun e => checkTruth e.type
  return ⟨.boolean, do
    let t ← Emit.newLabel
    let done ← Emit.newLabel
    es.forM fun e => do
      let next ← Emit.newLabel
      branchFalse e next
      Emit.jump t
      Emit.mark next
    choose 0 1 t done⟩

def isNull (e : Expr) : Expr :=
  ⟨.boolean, do
    e.generate
    if e.type.isNullable then
      let t ← Emit.newLabel
      let done ← Emit.newLabel
      Emit.op (.ifNull t)
      choose 0 1 t done
    else
      Emit.pop e.type
      Emit.op (.const (.int 0))⟩

def upToPresent : List Expr → List Expr
  | [] => []
  | e :: es => if e.type.isNullable then e :: upToPresent es else [e]

def coalesce (es : List Expr) : Build Expr := do
  let es := upToPresent es
  match es with
  | [] => fail (.invalidArgument "coalesce requires at least one operand")
  | [e] => return e
  | es =>
    let terminal := es.any fun e => !e.type.isNullable
    let unified ← lift (Ty.unifyAll (es.map (·.type)))
    let type := unified.withNull !terminal
    return ⟨type, do
      let done ← Emit.newLabel
      es.forM fun e => do
        let next ← Emit.newLabel
        e.generate
        let _ ← Emit.castOrNull type e.type next
        Emit.jump done
        Emit.mark next
      if !terminal then Emit.op .constNull
      Emit.mark done⟩

/-- `body` on the target when it is not null, else `otherwise`, which is null when absent. The target is held
in a local of `frame`. -/
def guarded (frame : FrameId) (target : Expr) (body : Expr → Build Expr) (otherwise : Option Expr) :
    Build Expr := do
  if !target.type.isNullable then body target
  else
    let held ← temp frame "guard" target.type.nonNull
    let present ← body held.read
    let type := match otherwise with
      | some other => Ty.unify present.type other.type
      | none => present.type.boxed.orNull
    return ⟨type, do
      let isNull ← Emit.newLabel
      let done ← Emit.newLabel
      target.generate
      let _ ← Emit.nullTest target.type isNull
      Emit.store (← Emit.slotOf held) held.type.width
      present.generateAs type
      Emit.jump done
      Emit.mark isNull
      match otherwise with
      | some other => other.generateAs type
      | none => Emit.op .constNull
      Emit.mark done⟩

end QueryMachine.Build
