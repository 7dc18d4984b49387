import QueryMachine.Code.Op
import QueryMachine.Value.Text

/-! Methods in machine code, and their listings. -/
namespace QueryMachine

namespace Native

def text : Native → String
  | objectCompare line offset =>
    Text.Layout.fields "ObjectCompare" [("line", toString line), ("offset", toString offset)]
  | newFault kind => Text.Layout.wrapped "NewFault" kind.name
  | n => n.name

end Native

namespace Dynamic

def text : Dynamic → String
  | getProperty name => Text.Layout.wrapped "GetProperty" (Text.Quoted.text name)
  | index => "Index"
  | iterate => "Iterate"
  | mergeFields => "MergeFields"
  | fieldNames => "FieldNames"

end Dynamic

namespace Op

def labelText (l : Label) : String := "L" ++ toString l

def caseText (c : Int32 × Label) : String := " " ++ toString c.1.toInt ++ " -> " ++ labelText c.2 ++ ","

def text (h : Heap) : Op → String
  | nop => "Nop"
  | constNull => "ConstNull"
  | const v => Text.Layout.wrapped "Const" (h.text v)
  | load s => Text.Layout.wrapped "Load" (toString s)
  | load2 s => Text.Layout.wrapped "Load2" (toString s)
  | store s => Text.Layout.wrapped "Store" (toString s)
  | store2 s => Text.Layout.wrapped "Store2" (toString s)
  | pop n => Text.Layout.wrapped "Pop" (toString n)
  | dup n => Text.Layout.wrapped "Dup" (toString n)
  | dupX n under => Text.Layout.wrapped "DupX" (toString n ++ ", " ++ toString under)
  | swap => "Swap"
  | arith a k => a.name ++ "." ++ k.name
  | neg k => "Neg." ++ k.name
  | cmp k => "Cmp." ++ k.name
  | convert source target => source.name ++ "2" ++ target.name
  | narrow p => Text.Layout.wrapped "Narrow" p.name
  | box p => Text.Layout.wrapped "Box" p.name
  | unbox p => Text.Layout.wrapped "Unbox" p.name
  | checkCast cls => Text.Layout.wrapped "CheckCast" cls
  | instanceOf cls => Text.Layout.wrapped "InstanceOf" cls
  | jump l => Text.Layout.wrapped "Jump" (labelText l)
  | ifZero c l => Text.Layout.wrapped ("If" ++ c.name) (labelText l)
  | ifCmp c l => Text.Layout.wrapped ("IfCmp" ++ c.name) (labelText l)
  | ifNull l => Text.Layout.wrapped "IfNull" (labelText l)
  | ifNonNull l => Text.Layout.wrapped "IfNonNull" (labelText l)
  | lookup cases default =>
    "LookupSwitch \x7b" ++ String.join (cases.map caseText) ++ " default -> " ++ labelText default ++ " \x7d"
  | throw => "Throw"
  | ret n => Text.Layout.wrapped "Return" (toString n)
  | new cls => Text.Layout.wrapped "New" cls
  | getField f => Text.Layout.wrapped "GetField" f.text
  | putField f => Text.Layout.wrapped "PutField" f.text
  | getStatic f => Text.Layout.wrapped "GetStatic" f.text
  | putStatic f => Text.Layout.wrapped "PutStatic" f.text
  | invoke m => Text.Layout.wrapped "Invoke" m.text
  | function m => Text.Layout.wrapped "Function" m.text
  | native n => Text.Layout.wrapped "CallNative" n.text
  | dynamic _ d => Text.Layout.wrapped "InvokeDynamic" d.text

end Op

structure Method where
  ref : MethodRef
  ops : Array Op
  labels : Array Nat
  handlers : List Handler
  maxLocals : Nat
  maxStack : Nat

namespace Method

def name (m : Method) : String := m.ref.name

def position (m : Method) (l : Label) : Nat := m.labels.getD l 0

def handlerFor? (m : Method) (pc : Nat) (f : Fault) : Option Nat :=
  (m.handlers.find? fun h =>
    m.position h.start ≤ pc && pc < m.position h.stop && f.caughtBy h.filter).map fun h =>
      m.position h.target

def opLine (h : Heap) (pc : Nat) (op : Op) : String :=
  Timestamp.padded 4 pc ++ ": " ++ op.text h ++ "\n"

def handlerLine (h : Handler) : String :=
  "try " ++ Op.labelText h.start ++ ".." ++ Op.labelText h.stop ++ " -> " ++ Op.labelText h.target
    ++ " catch " ++ h.filter.text ++ "\n"

def listing (h : Heap) (ops : Array Op) (labels : List (Option Nat)) (handlers : List Handler) : String :=
  let marks (pc : Nat) : String :=
    String.join ((labels.zipIdx.filter fun (p, _) => p == some pc).map fun (_, l) =>
      Op.labelText l ++ ":\n")
  String.join (ops.toList.zipIdx.map fun (op, pc) => marks pc ++ opLine h pc op)
    ++ String.join (handlers.map handlerLine)

def disassemble (h : Heap) (m : Method) : String :=
  "method " ++ m.ref.text ++ " locals=" ++ toString m.maxLocals ++ " stack=" ++ toString m.maxStack ++ "\n"
    ++ listing h m.ops (m.labels.toList.map some) m.handlers

def summary (m : Method) : String :=
  Text.Layout.fields "MethodBody" [("method", Text.Quoted.text m.ref.text),
    ("ops_count", toString m.ops.size), ("max_locals", toString m.maxLocals),
    ("max_stack", toString m.maxStack)]

end Method

end QueryMachine
