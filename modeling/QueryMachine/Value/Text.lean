import QueryMachine.Decimal.Style
import QueryMachine.Value.Heap

/-! Printed forms of values. The detailed one names the sort of each value; the plain one, which listings
use, marks raw numbers by a letter and leaves objects bare. -/
namespace QueryMachine

namespace Boxed

def detail : Boxed → String
  | boolean v => Text.Layout.wrapped "Boolean" (if v then "true" else "false")
  | byte v => Text.Layout.wrapped "Byte" (toString v.toInt)
  | short v => Text.Layout.wrapped "Short" (toString v.toInt)
  | int v => Text.Layout.wrapped "Int" (toString v.toInt)
  | long v => Text.Layout.wrapped "Long" (toString v.toInt)
  | float v => Text.Layout.wrapped "Float" (Decimal.detailed.float Decimal.single v.toBits.toNat)
  | double v => Text.Layout.wrapped "Double" (Decimal.detailed.float Decimal.double v.toBits.toNat)

end Boxed

namespace Heap

def remainingText (ms : Nat) : String :=
  if ms == 0 then "0ns"
  else if ms < 1000 then toString ms ++ "ms"
  else
    let fraction := (Timestamp.padded 3 (ms % 1000)).toList.reverse.dropWhile (· == '0')
    toString (ms / 1000) ++ (if fraction.isEmpty then "" else "." ++ String.ofList fraction.reverse) ++ "s"

def timeoutText (h : Heap) (t : Timeout) : String :=
  Text.Layout.wrapped "Timeout" (match t.deadline with
    | none => "unbounded"
    | some d => remainingText (d - h.clock) ++ " left")

def asObject (v : Value) (form : String) : String :=
  if v.isObject then Text.Layout.wrapped "Object" form else form

def form (h : Heap) (inner : Value → String) : Value → String
  | .null => "Null"
  | .top => "Top"
  | .int v => Text.Layout.wrapped "Int" (toString v.toInt)
  | .long v => Text.Layout.wrapped "Long" (toString v.toInt)
  | .float v => Text.Layout.wrapped "Float" (Decimal.detailed.float Decimal.single v.toBits.toNat)
  | .double v => Text.Layout.wrapped "Double" (Decimal.detailed.float Decimal.double v.toBits.toNat)
  | .boxed b => b.detail
  | .string s => Text.Quoted.text s
  | .bytes b => Text.Layout.wrapped "Bytes" (toString b.length)
  | .timestamp t => Text.Layout.wrapped "Timestamp" t.text
  | .enum e => e.type ++ "." ++ e.name
  | .list a => Text.Layout.listing ((h.list a).toList.map inner)
  | .map a => Text.Layout.mapping ((h.map a).map fun (k, v) => (inner k, inner v))
  | .record a => Text.Layout.mapping ((h.record a).entries.map fun (n, v) => (Text.Quoted.text n, inner v))
  | .object a =>
    let o := h.object a
    Text.Layout.fields o.cls ((o.fields.zip o.slots).map fun (n, v) => (n, inner v))
  | .promise _ => "Promise"
  | .host a => Text.Layout.wrapped "Host" (h.host a).cls
  | .success v => Text.Layout.wrapped "Success" (asObject v (h.form inner v))
  | .failure f => Text.Layout.wrapped "Failure" f.detail
  | .timeout t => h.timeoutText t
  | .function _ name => Text.Layout.wrapped "Function" name
  | .throwable f => Text.Layout.wrapped "Throwable" f.text

def detailWithin (h : Heap) : Nat → Value → String
  | 0, v => asObject v (h.form (fun _ => "") v)
  | depth + 1, v => asObject v (h.form (h.detailWithin depth) v)

def detail (h : Heap) (v : Value) : String := h.detailWithin (h.size + 1) v

def text (h : Heap) : Value → String
  | .null => "null"
  | .top => "<top>"
  | .int v => toString v.toInt
  | .long v => toString v.toInt ++ "L"
  | .float v => Decimal.plain.float Decimal.single v.toBits.toNat ++ "f"
  | .double v => Decimal.plain.float Decimal.double v.toBits.toNat ++ "d"
  | v => h.form h.detail v

end Heap

end QueryMachine
