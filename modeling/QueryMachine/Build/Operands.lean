import QueryMachine.Expr.Basic
import QueryMachine.Ty.Unify

/-! Two operands at one type, with a way out for nulls. -/
namespace QueryMachine.Operands

/-- Generate both operands as `type`. A null leaves with neither on the stack: for `leftNull` or `rightNull`
when only that side is null, for `bothNull` when both are. The right operand is generated a second time
where the two cases have to be told apart. True when a null was tested for. -/
def generateAs (type : Ty) (left right : Expr) (leftNull rightNull bothNull : Label) : Emit Bool := do
  left.generate
  let distinct := leftNull != bothNull && right.type.isNullable
  let leftIsNull ← if distinct then Emit.newLabel else pure leftNull
  let leftTested ← Emit.castOrNull type left.type leftIsNull
  if leftTested && distinct then
    let skip ← Emit.newLabel
    Emit.jump skip
    Emit.mark leftIsNull
    right.generate
    Emit.op (.ifNull bothNull)
    Emit.jump leftNull
    Emit.mark skip
  else if distinct then Emit.mark leftIsNull
  let drop ← Emit.newLabel
  right.generate
  let rightTested ← Emit.castOrNull type right.type drop
  if rightTested then
    let done ← Emit.newLabel
    Emit.jump done
    Emit.mark drop
    Emit.pop type
    Emit.jump rightNull
    Emit.mark done
  else Emit.mark drop
  return leftTested || rightTested

def generate (left right : Expr) (leftNull rightNull bothNull : Label) : Emit (Ty × Bool) := do
  let type := Ty.unify left.type right.type
  let tested ← generateAs type left right leftNull rightNull bothNull
  return (type, tested)

/-- Primitive in which two operands are computed. Where their common type has none and one is `any`, the
other decides. -/
def numeric? (left right : Ty) : Option Prim :=
  match (Ty.unify left right).prim? with
  | some p => if p = .boolean then none else some p
  | none =>
    if left.isAny || right.isAny then
      ([left, right].filterMap Ty.prim?).find? (· != .boolean)
    else none

def comparison (left right : Ty) : Ty :=
  let unified := Ty.unify left right
  match unified.prim?, numeric? left right with
  | some p, _ => .prim p
  | none, some p => .prim p
  | none, none => unified.nonNull

end QueryMachine.Operands
