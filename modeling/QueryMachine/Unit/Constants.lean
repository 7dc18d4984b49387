import QueryMachine.Expr.Basic
import QueryMachine.Value.Equality
import QueryMachine.Value.Literal

/-! Literals. Numbers and strings stand in the code; anything else is kept once in a static field of the
constants unit, shared by literals of one type that are equal. -/
namespace QueryMachine

structure Hoisted where
  field : FieldRef
  type : Ty
  value : Value

structure Constants where
  hoisted : List Hoisted

namespace Constants

def unitName : String := "$constants"

def empty : Constants := ⟨[]⟩

def size (c : Constants) : Nat := c.hoisted.length

def unboxed : Boxed → Value
  | .boolean v => .int (if v then 1 else 0)
  | .byte v => .int v.toInt32
  | .short v => .int v.toInt32
  | .int v => .int v
  | .long v => .long v
  | .float v => .float v
  | .double v => .double v

def shared? (h : Heap) (c : Constants) (type : Ty) (v : Value) : Option Hoisted :=
  c.hoisted.find? fun k => k.type = type && h.hashKey k.value = h.hashKey v && h.equals v k.value

def hoist (h : Heap) (c : Constants) (type : Ty) (v : Value) : Expr × Constants :=
  match c.shared? h type v with
  | some k => (⟨type, Emit.op (.getStatic k.field)⟩, c)
  | none =>
    let f : FieldRef := ⟨unitName, "c" ++ toString c.size, type.rep⟩
    (⟨type, Emit.op (.getStatic f)⟩, ⟨c.hoisted ++ [⟨f, type, v⟩]⟩)

def literal (h : Heap) (c : Constants) (v : Value) : Expr × Constants :=
  let type := h.literalType v
  match v with
  | .null => (.null .any, c)
  | .boxed b => (.literal (unboxed b) type, c)
  | .int _ | .long _ | .float _ | .double _ | .string _ => (.literal v type, c)
  | v => c.hoist h type v

end Constants

end QueryMachine
