import QueryMachine.Rep
import QueryMachine.Value.Basic

/-! Operations of the machine and what they do to the operand stack, in slots. -/
namespace QueryMachine

abbrev Label := Nat

inductive Arith where
  | add
  | sub
  | mul
  | div
  | rem
  deriving DecidableEq, Repr

namespace Arith

def name : Arith → String
  | add => "Add"
  | sub => "Sub"
  | mul => "Mul"
  | div => "Div"
  | rem => "Rem"

def ofName? (s : String) : Option Arith := [add, sub, mul, div, rem].find? (·.name == s)

end Arith

inductive Cond where
  | eq
  | ne
  | lt
  | ge
  | gt
  | le
  deriving DecidableEq, Repr

namespace Cond

def name : Cond → String
  | eq => "Eq"
  | ne => "Ne"
  | lt => "Lt"
  | ge => "Ge"
  | gt => "Gt"
  | le => "Le"

def ofName? (s : String) : Option Cond := [eq, ne, lt, ge, gt, le].find? (·.name == s)

def test : Cond → Ordering → Bool
  | eq, o => o == .eq
  | ne, o => o != .eq
  | lt, o => o == .lt
  | ge, o => o != .lt
  | gt, o => o == .gt
  | le, o => o != .gt

def negate : Cond → Cond
  | eq => ne
  | ne => eq
  | lt => ge
  | ge => lt
  | gt => le
  | le => gt

theorem testNegate (c : Cond) (o : Ordering) : c.negate.test o = !c.test o := by
  cases c <;> cases o <;> rfl

end Cond

structure MethodRef where
  cls : String
  name : String
  params : List Rep
  returns : Rep
  isStatic : Bool
  deriving DecidableEq, Repr

namespace MethodRef

def argSlots (m : MethodRef) : Nat :=
  m.params.foldr (fun r n => r.width + n) 0 + if m.isStatic then 0 else 1

def text (m : MethodRef) : String :=
  m.cls ++ "." ++ m.name ++ "(" ++ String.join (m.params.map Rep.descriptor) ++ ")"
    ++ m.returns.descriptor

end MethodRef

structure FieldRef where
  cls : String
  name : String
  rep : Rep
  deriving DecidableEq, Repr

namespace FieldRef

def text (f : FieldRef) : String := f.cls ++ "." ++ f.name ++ ":" ++ f.rep.descriptor

end FieldRef

/-- A region whose matching faults continue at `target`. -/
structure Handler where
  start : Label
  stop : Label
  target : Label
  filter : Catch
  deriving DecidableEq, Repr

inductive Native where
  | newList
  | listAdd
  | listGet
  | listSet
  | length
  | newMap
  | mapPut
  | mapGet
  | newRecord
  | recordPut
  | recordGet
  | stringEquals
  | stringUpper
  | stringHash
  | stringConcat
  | objectEquals
  | objectCompare (line offset : Int)
  | outcomeSuccess
  | outcomeFailure
  | outcomeValue
  | promiseGet
  | promiseThen
  | timeoutCheck
  | propertyNotFound
  | newFault (kind : FaultKind)
  deriving DecidableEq, Repr

namespace Native

def effect : Native → Nat × Nat
  | newList | newMap | newRecord | newFault _ => (0, 1)
  | listAdd => (2, 0)
  | listSet | mapPut | recordPut => (3, 0)
  | listGet | mapGet | recordGet | stringEquals | stringConcat | objectEquals | objectCompare ..
  | promiseGet | promiseThen => (2, 1)
  | length | stringUpper | stringHash | outcomeSuccess | outcomeFailure | outcomeValue
  | propertyNotFound => (1, 1)
  | timeoutCheck => (1, 0)

def name : Native → String
  | newList => "NewList"
  | listAdd => "ListAdd"
  | listGet => "ListGet"
  | listSet => "ListSet"
  | length => "Length"
  | newMap => "NewMap"
  | mapPut => "MapPut"
  | mapGet => "MapGet"
  | newRecord => "NewRecord"
  | recordPut => "RecordPut"
  | recordGet => "RecordGet"
  | stringEquals => "StringEquals"
  | stringUpper => "StringUpper"
  | stringHash => "StringHash"
  | stringConcat => "StringConcat"
  | objectEquals => "ObjectEquals"
  | objectCompare .. => "ObjectCompare"
  | outcomeSuccess => "OutcomeSuccess"
  | outcomeFailure => "OutcomeFailure"
  | outcomeValue => "OutcomeValue"
  | promiseGet => "PromiseGet"
  | promiseThen => "PromiseThen"
  | timeoutCheck => "TimeoutCheck"
  | propertyNotFound => "PropertyNotFound"
  | newFault _ => "NewFault"

def simple : List Native :=
  [newList, listAdd, listGet, listSet, length, newMap, mapPut, mapGet, newRecord, recordPut, recordGet,
    stringEquals, stringUpper, stringHash, stringConcat, objectEquals, outcomeSuccess, outcomeFailure,
    outcomeValue, promiseGet, promiseThen, timeoutCheck, propertyNotFound]

def ofName? (s : String) : Option Native := simple.find? (·.name == s)

end Native

/-- Operations on values whose sort is known only when they run. -/
inductive Dynamic where
  | getProperty (name : String)
  | index
  | iterate
  | mergeFields
  | fieldNames
  deriving DecidableEq, Repr

namespace Dynamic

def effect : Dynamic → Nat × Nat
  | getProperty _ | iterate | fieldNames => (1, 1)
  | index => (2, 1)
  | mergeFields => (2, 0)

end Dynamic

inductive Op where
  | nop
  | constNull
  | const (v : Value)
  | load (slot : Nat)
  | load2 (slot : Nat)
  | store (slot : Nat)
  | store2 (slot : Nat)
  | pop (n : Nat)
  | dup (n : Nat)
  | dupX (n under : Nat)
  | swap
  | arith (a : Arith) (k : Num)
  | neg (k : Num)
  | cmp (k : Num)
  | convert (source target : Num)
  | narrow (p : Prim)
  | box (p : Prim)
  | unbox (p : Prim)
  | checkCast (cls : String)
  | instanceOf (cls : String)
  | jump (l : Label)
  | ifZero (c : Cond) (l : Label)
  | ifCmp (c : Cond) (l : Label)
  | ifNull (l : Label)
  | ifNonNull (l : Label)
  | lookup (cases : List (Int32 × Label)) (default : Label)
  | throw
  | ret (n : Nat)
  | new (cls : String)
  | getField (f : FieldRef)
  | putField (f : FieldRef)
  | getStatic (f : FieldRef)
  | putStatic (f : FieldRef)
  | invoke (m : MethodRef)
  | function (m : MethodRef)
  | native (n : Native)
  | dynamic (site : Nat) (d : Dynamic)
  deriving DecidableEq

namespace Op

def effect : Op → Nat × Nat
  | nop | jump _ => (0, 0)
  | constNull => (0, 1)
  | const v => (0, v.width)
  | load _ => (0, 1)
  | load2 _ => (0, 2)
  | store _ => (1, 0)
  | store2 _ => (2, 0)
  | pop n => (n, 0)
  | dup n => (n, 2 * n)
  | dupX n under => (n + under, 2 * n + under)
  | swap => (2, 2)
  | arith _ k => (2 * k.width, k.width)
  | neg k => (k.width, k.width)
  | cmp k => (2 * k.width, 1)
  | convert source target => (source.width, target.width)
  | narrow _ => (1, 1)
  | box p => (p.width, 1)
  | unbox p => (1, p.width)
  | checkCast _ | instanceOf _ => (1, 1)
  | ifZero .. | ifNull _ | ifNonNull _ | lookup .. | throw => (1, 0)
  | ifCmp .. => (2, 0)
  | ret n => (n, 0)
  | new _ | function _ => (0, 1)
  | getField f => (1, f.rep.width)
  | putField f => (1 + f.rep.width, 0)
  | getStatic f => (0, f.rep.width)
  | putStatic f => (f.rep.width, 0)
  | invoke m => (m.argSlots, m.returns.width)
  | native n => n.effect
  | dynamic _ d => d.effect

def targets : Op → List Label
  | jump l | ifZero _ l | ifCmp _ l | ifNull l | ifNonNull l => [l]
  | lookup cases default => cases.map (·.2) ++ [default]
  | _ => []

def fallsThrough : Op → Bool
  | jump _ | lookup .. | throw | ret _ => false
  | _ => true

/-- Class whose members the operation uses. Type checks are left out: they may name library classes. -/
def memberClass? : Op → Option String
  | new cls => some cls
  | getField f | putField f | getStatic f | putStatic f => some f.cls
  | invoke m | function m => some m.cls
  | _ => none

end Op

end QueryMachine
