import QueryMachine.Build.Logic
import QueryMachine.Build.Operands

/-! Comparison. Primitives compare as numbers, anything else by the ordering and equality of its values. -/
namespace QueryMachine.Build

def order (type : Ty) (location : Location) : Emit Unit :=
  match type with
  | .prim p => Emit.op (.cmp p.num)
  | _ => Emit.op (.native (.objectCompare location.line location.offset))

/-- Three-way comparison as an int32. A null left operand counts as less and a null right one as greater; two
nulls are equal. -/
def compare (left right : Expr) (location : Location) : Expr :=
  let type := Operands.comparison left.type right.type
  ⟨.int32, do
    let leftNull ← Emit.newLabel
    let rightNull ← Emit.newLabel
    let bothNull ← Emit.newLabel
    let done ← Emit.newLabel
    let _ ← Operands.generateAs type left right leftNull rightNull bothNull
    order type location
    Emit.jump done
    [(leftNull, (-1 : Int32)), (rightNull, 1), (bothNull, 0)].forM fun (l, rank) => do
      Emit.mark l
      Emit.op (.const (.int rank))
      Emit.jump done
    Emit.mark done⟩

def ordered (c : Cond) (left right : Expr) (location : Location) : Expr :=
  let type := Operands.comparison left.type right.type
  ⟨.boolean, do
    let f ← Emit.newLabel
    let done ← Emit.newLabel
    let _ ← Operands.generateAs type left right f f f
    order type location
    Emit.op (.ifZero c.negate f)
    choose 1 0 f done⟩

def equality (left right : Expr) (negated : Bool) : Expr :=
  let type := Operands.comparison left.type right.type
  ⟨.boolean, do
    let f ← Emit.newLabel
    let done ← Emit.newLabel
    let _ ← Operands.generateAs type left right f f f
    match type with
    | .prim p => Emit.ops [.cmp p.num, .ifZero (if negated then .eq else .ne) f]
    | _ => Emit.ops [.native .objectEquals, .ifZero (if negated then .ne else .eq) f]
    choose 1 0 f done⟩

end QueryMachine.Build
