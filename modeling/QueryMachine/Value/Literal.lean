import QueryMachine.Ty.Unify
import QueryMachine.Value.Heap

/-! Types of literals. Collections take the common type of what they hold, `any` when they are empty. -/
namespace QueryMachine.Heap

def literalTypeBy (h : Heap) (inner : Value → Ty) : Value → Ty
  | .null | .top => .any
  | .int _ => .int32
  | .long _ => .int64
  | .float _ => .prim .float32
  | .double _ => .float64
  | .boxed b => .prim b.prim
  | .string _ => Ty.string.nonNull
  | .bytes _ => Ty.bytes.nonNull
  | .timestamp _ => Ty.timestamp.nonNull
  | .list a => (Ty.list (Ty.unifyOrAny ((h.list a).toList.map inner))).nonNull
  | .map a =>
    let entries := h.map a
    (Ty.mapOf (Ty.unifyOrAny (entries.map fun (k, _) => inner k))
      (Ty.unifyOrAny (entries.map fun (_, v) => inner v))).nonNull
  | .record _ => Ty.record.nonNull
  | .timeout _ => Ty.timeout
  | .throwable _ => Ty.throwable
  | _ => Ty.any.nonNull

def literalTypeWithin (h : Heap) : Nat → Value → Ty
  | 0 => h.literalTypeBy fun _ => .any
  | depth + 1 => h.literalTypeBy (h.literalTypeWithin depth)

def literalType (h : Heap) (v : Value) : Ty := h.literalTypeWithin (h.size + 1) v

end QueryMachine.Heap
