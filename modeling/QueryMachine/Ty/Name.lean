import QueryMachine.Ty.HostType
import QueryMachine.Ty.ValueType

/-! Types by name, and the ways to make a type of another one. -/
namespace QueryMachine

def ValueType.named? : String → Option ValueType
  | "void" => some .void
  | "string" => some .string
  | "bytes" => some .bytes
  | "timestamp" => some .timestamp
  | "any" => some .any
  | s => (Prim.ofName? s).map .scalar

def ValueType.former? : String → Option (ValueType → ValueType)
  | "array" => some .array
  | "optional" => some .orNull
  | "optional_raw" => some .optional
  | _ => none

def HostType.named? : String → Option HostType
  | "void" => some .void
  | "string" => some .string
  | "bytes" => some .bytes
  | "timestamp" => some .timestamp
  | "object" => some .object
  | "timeout" => some .timeout
  | "record" => some .record
  | _ => none

def HostType.former? : String → Option (HostType → HostType)
  | "array" => some .array
  | "list" => some .list
  | "future" => some .future
  | "provider" => some .provider
  | _ => none

def Ty.named? : String → Option Ty
  | "void" => some .void
  | "string" => some .string
  | "bytes" => some .bytes
  | "timestamp" => some .timestamp
  | "any" => some .any
  | "record" => some .record
  | "timeout" => some .timeout
  | "throwable" => some .throwable
  | s => match Prim.ofBoxClass? s with
    | some p => some (.boxedOf p)
    | none => (Prim.ofName? s).map .prim

def Ty.former? : String → Option (Ty → Ty)
  | "notnull" => some .nonNull
  | "nullable" => some .orNull
  | "boxed" => some .boxed
  | "unboxed" => some .unboxed
  | "list" => some .list
  | "array" => some .array
  | "promise" => some .promise
  | "result" => some .result
  | _ => none

end QueryMachine
