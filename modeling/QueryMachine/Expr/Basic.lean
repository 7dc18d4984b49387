import QueryMachine.Code.Emitter

/-! Typed expressions and sequences, as the emission they stand for. An expression leaves one value of its
type on the stack; a sequence leaves the stack as it was. -/
namespace QueryMachine

structure Expr where
  type : Ty
  generate : Emit Unit

abbrev Seq := Emit Unit

namespace Expr

def text (e : Expr) : String := Text.Layout.wrapped "Expr" e.type.text

def literal (v : Value) (type : Ty) : Expr := ⟨type, Emit.op (.const v)⟩

def boolean (b : Bool) : Expr := literal (.int (if b then 1 else 0)) .boolean

def null (type : Ty) : Expr := ⟨type.boxed.orNull, Emit.op .constNull⟩

def generateAs (e : Expr) (type : Ty) : Emit Unit := do
  e.generate
  Emit.cast type e.type

def cast (e : Expr) (type : Ty) : Expr := if e.type = type then e else ⟨type, e.generateAs type⟩

def after (before : Seq) (e : Expr) : Expr := ⟨e.type, do before; e.generate⟩

end Expr

namespace Seq

def nop : Seq := pure ()

def block (items : List Seq) : Seq := items.forM id

def eval (e : Expr) : Seq := do
  e.generate
  Emit.pop e.type

def ret (e : Expr) (returns : Ty) : Seq := do
  e.generateAs returns
  Emit.op (.ret returns.width)

end Seq

end QueryMachine
