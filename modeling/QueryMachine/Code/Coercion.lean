import QueryMachine.Code.Emitter

/-! The type-directed pieces of code, by name. -/
namespace QueryMachine

inductive Coercion where
  | unary (f : Ty → Emit Unit)
  | binary (f : Ty → Ty → Emit Unit)
  | tested (f : Ty → Label → Emit Bool)
  | casting (f : Ty → Ty → Label → Emit Bool)
  | leaving (f : Ty → Label → Emit Unit)

namespace Coercion

def ofName? : String → Option Coercion
  | "box" => some (.unary Emit.box)
  | "unbox" => some (.unary Emit.unbox)
  | "downcast" => some (.unary Emit.downcast)
  | "dup" => some (.unary Emit.dup)
  | "pop" => some (.unary Emit.pop)
  | "cast" => some (.binary Emit.cast)
  | "swap" => some (.binary Emit.swap)
  | "null_test" => some (.tested Emit.nullTest)
  | "null_test_leave" => some (.tested Emit.nullTestLeave)
  | "cast_or_null" => some (.casting Emit.castOrNull)
  | "not_null_test" => some (.leaving Emit.notNullTest)
  | "test_false" => some (.leaving Emit.testFalse)
  | _ => none

end Coercion

end QueryMachine
