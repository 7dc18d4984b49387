import QueryMachine.Build.Operands
import QueryMachine.Session

/-! Arithmetic. A null operand makes the result null. -/
namespace QueryMachine.Build

def narrow (p : Prim) : Emit Unit :=
  match p with
  | .int8 | .int16 => Emit.op (.narrow p)
  | _ => pure ()

def resultType (p : Prim) (nullable : Bool) : Ty := if nullable then .boxedOf p else .prim p

def orNull (p : Prim) (nullable : Bool) (isNull done : Label) : Emit Unit := do
  if nullable then
    Emit.op (.box p)
    Emit.jump done
    Emit.mark isNull
    Emit.op .constNull
  else Emit.mark isNull
  Emit.mark done

def arithmetic (a : Arith) (left right : Expr) : Build Expr := do
  match Operands.numeric? left.type right.type with
  | none => fail (.invalidArgument ("cannot apply " ++ a.name ++ " to " ++ left.type.text ++ " and "
      ++ right.type.text))
  | some p =>
    let nullable := left.type.isNullable || right.type.isNullable
    return ⟨resultType p nullable, do
      let isNull ← Emit.newLabel
      let done ← Emit.newLabel
      let _ ← Operands.generateAs (.prim p) left right isNull isNull isNull
      Emit.op (.arith a p.num)
      narrow p
      orNull p nullable isNull done⟩

def negate (e : Expr) : Build Expr := do
  match e.type.prim?.filter (· != .boolean) with
  | none => fail (.invalidArgument ("cannot negate " ++ e.type.text))
  | some p =>
    return ⟨resultType p e.type.isNullable, do
      let isNull ← Emit.newLabel
      let done ← Emit.newLabel
      e.generate
      let _ ← Emit.castOrNull (.prim p) e.type isNull
      Emit.op (.neg p.num)
      narrow p
      orNull p e.type.isNullable isNull done⟩

end QueryMachine.Build
