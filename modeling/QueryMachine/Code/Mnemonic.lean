import QueryMachine.Code.Op

/-! Names of operations, with what has to stand after them. -/
namespace QueryMachine

inductive Mnemonic where
  | plain (o : Op)
  | slot (f : Nat → Op)
  | width (f : Nat → Op)
  | widths (f : Nat → Nat → Op)
  | cls (f : String → Op)
  | label (f : Label → Op)
  | branch (f : Cond → Label → Op)
  | num (f : Num → Op)
  | nums (f : Num → Num → Op)
  | arith (f : Arith → Num → Op)
  | prim (f : Prim → Op)
  | field (f : FieldRef → Op)
  | method (f : MethodRef → Op)
  | const (f : Value → Op)
  | cases (f : List (Int32 × Label) → Label → Op)
  | native (f : Native → Op)
  | dynamic (d : Dynamic)
  | property (f : String → Dynamic)

namespace Mnemonic

def ofName? : String → Option Mnemonic
  | "Nop" => some (.plain .nop)
  | "ConstNull" => some (.plain .constNull)
  | "Swap" => some (.plain .swap)
  | "Throw" => some (.plain .throw)
  | "Load" => some (.slot .load)
  | "Load2" => some (.slot .load2)
  | "Store" => some (.slot .store)
  | "Store2" => some (.slot .store2)
  | "Pop" => some (.width .pop)
  | "Dup" => some (.width .dup)
  | "Return" => some (.width .ret)
  | "DupX" => some (.widths .dupX)
  | "CheckCast" => some (.cls .checkCast)
  | "InstanceOf" => some (.cls .instanceOf)
  | "New" => some (.cls .new)
  | "Jump" => some (.label .jump)
  | "IfNull" => some (.label .ifNull)
  | "IfNonNull" => some (.label .ifNonNull)
  | "If" => some (.branch .ifZero)
  | "IfCmp" => some (.branch .ifCmp)
  | "Neg" => some (.num .neg)
  | "Cmp" => some (.num .cmp)
  | "Convert" => some (.nums .convert)
  | "Arith" => some (.arith .arith)
  | "Narrow" => some (.prim .narrow)
  | "Box" => some (.prim .box)
  | "Unbox" => some (.prim .unbox)
  | "GetField" => some (.field .getField)
  | "PutField" => some (.field .putField)
  | "GetStatic" => some (.field .getStatic)
  | "PutStatic" => some (.field .putStatic)
  | "Invoke" => some (.method .invoke)
  | "Function" => some (.method .function)
  | "Const" => some (.const .const)
  | "LookupSwitch" => some (.cases .lookup)
  | "Native" => some (.native .native)
  | "Index" => some (.dynamic .index)
  | "Iterate" => some (.dynamic .iterate)
  | "MergeFields" => some (.dynamic .mergeFields)
  | "FieldNames" => some (.dynamic .fieldNames)
  | "GetProperty" => some (.property .getProperty)
  | _ => none

end Mnemonic

end QueryMachine
