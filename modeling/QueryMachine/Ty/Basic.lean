import QueryMachine.Rep
import QueryMachine.Text.Layout

/-! Types of compiled values. A reference type says whether it admits null; void and the primitives never
do, so they carry no such flag. -/
namespace QueryMachine

inductive Atom where
  | boxed (p : Prim)
  | string
  | bytes
  | timestamp
  | any
  | record
  | enum (name : String) (variants : List String)
  | timeout
  | throwable
  deriving DecidableEq, Repr

inductive Carrier where
  | array
  | list
  | promise
  | result
  deriving DecidableEq, Repr

inductive Ty where
  | void
  | prim (p : Prim)
  | atom (nullable : Bool) (a : Atom)
  | carrier (nullable : Bool) (c : Carrier) (elem : Ty)
  | map (nullable : Bool) (key value : Ty)
  | struct (nullable : Bool) (name : String) (fields : List (String × Ty))
  | host (nullable : Bool) (name : String) (properties : List (String × Ty)) (comparable : Bool)

namespace Ty

mutual

def same : Ty → Ty → Bool
  | .void, .void => true
  | .prim p, .prim q => p == q
  | .atom m a, .atom n b => m == n && a == b
  | .carrier m c s, .carrier n d t => m == n && c == d && same s t
  | .map m k v, .map n l w => m == n && same k l && same v w
  | .struct m a fs, .struct n b gs => m == n && a == b && sameFields fs gs
  | .host m a fs c, .host n b gs d => m == n && a == b && c == d && sameFields fs gs
  | _, _ => false

def sameFields : List (String × Ty) → List (String × Ty) → Bool
  | [], [] => true
  | (a, s) :: fs, (b, t) :: gs => a == b && same s t && sameFields fs gs
  | _, _ => false

end

mutual

theorem eqOfSame : ∀ {s t : Ty}, same s t = true → s = t
  | .void, t, h => by cases t <;> simp_all [same]
  | .prim _, t, h => by cases t <;> simp_all [same]
  | .atom _ _, t, h => by cases t <;> simp_all [same]
  | .carrier _ _ s, t, h => by
    cases t <;> simp only [same, Bool.and_eq_true, beq_iff_eq, Bool.false_eq_true] at h
    obtain ⟨⟨rfl, rfl⟩, e⟩ := h
    rw [eqOfSame e]
  | .map _ k v, t, h => by
    cases t <;> simp only [same, Bool.and_eq_true, beq_iff_eq, Bool.false_eq_true] at h
    obtain ⟨⟨rfl, ek⟩, ev⟩ := h
    rw [eqOfSame ek, eqOfSame ev]
  | .struct _ _ fs, t, h => by
    cases t <;> simp only [same, Bool.and_eq_true, beq_iff_eq, Bool.false_eq_true] at h
    obtain ⟨⟨rfl, rfl⟩, e⟩ := h
    rw [eqOfSameFields e]
  | .host _ _ fs _, t, h => by
    cases t <;> simp only [same, Bool.and_eq_true, beq_iff_eq, Bool.false_eq_true] at h
    obtain ⟨⟨⟨rfl, rfl⟩, rfl⟩, e⟩ := h
    rw [eqOfSameFields e]

theorem eqOfSameFields : ∀ {fs gs : List (String × Ty)}, sameFields fs gs = true → fs = gs
  | [], gs, h => by cases gs <;> simp_all [sameFields]
  | (a, s) :: fs, gs, h => by
    match gs, h with
    | [], h => simp [sameFields] at h
    | (b, t) :: gs, h =>
      simp only [sameFields, Bool.and_eq_true, beq_iff_eq] at h
      obtain ⟨⟨rfl, e⟩, r⟩ := h
      rw [eqOfSame e, eqOfSameFields r]

end

mutual

theorem sameSelf : ∀ t : Ty, same t t = true
  | .void => by simp [same]
  | .prim _ => by simp [same]
  | .atom _ _ => by simp [same]
  | .carrier _ _ t => by simp [same, sameSelf t]
  | .map _ k v => by simp [same, sameSelf k, sameSelf v]
  | .struct _ _ fs => by simp [same, sameFieldsSelf fs]
  | .host _ _ fs _ => by simp [same, sameFieldsSelf fs]

theorem sameFieldsSelf : ∀ fs : List (String × Ty), sameFields fs fs = true
  | [] => by simp [sameFields]
  | (_, t) :: fs => by simp [sameFields, sameSelf t, sameFieldsSelf fs]

end

theorem sameIff {s t : Ty} : same s t = true ↔ s = t :=
  ⟨eqOfSame, fun h => h ▸ sameSelf s⟩

instance : DecidableEq Ty := fun _ _ => decidable_of_iff _ sameIff

def any : Ty := .atom true .any
def string : Ty := .atom true .string
def bytes : Ty := .atom true .bytes
def timestamp : Ty := .atom true .timestamp
def record : Ty := .atom true .record
def timeout : Ty := .atom false .timeout
def throwable : Ty := .atom false .throwable
def boolean : Ty := .prim .boolean
def int32 : Ty := .prim .int32
def int64 : Ty := .prim .int64
def float64 : Ty := .prim .float64
def boxedOf (p : Prim) : Ty := .atom true (.boxed p)
def enumeration (name : String) (variants : List String) : Ty := .atom true (.enum name variants)

def isNullable : Ty → Bool
  | .void | .prim _ => false
  | .atom n _ | .carrier n _ _ | .map n _ _ | .struct n _ _ | .host n _ _ _ => n

def withNull (n : Bool) : Ty → Ty
  | .void => .void
  | .prim p => .prim p
  | .atom _ a => .atom n a
  | .carrier _ c t => .carrier n c t
  | .map _ k v => .map n k v
  | .struct _ name fs => .struct n name fs
  | .host _ name fs c => .host n name fs c

def orNull (t : Ty) : Ty := t.withNull true
def nonNull (t : Ty) : Ty := t.withNull false

def boxed : Ty → Ty
  | .prim p => boxedOf p
  | t => t

def unboxed : Ty → Ty
  | .atom _ (.boxed p) => .prim p
  | t => t

/- Elements are always held boxed. -/
def array (elem : Ty) : Ty := .carrier true .array elem.boxed
def list (elem : Ty) : Ty := .carrier true .list elem.boxed
def promise (elem : Ty) : Ty := .carrier true .promise elem.boxed
def result (elem : Ty) : Ty := .carrier true .result elem.boxed
def mapOf (key value : Ty) : Ty := .map true key.boxed value.boxed

def rep : Ty → Rep
  | .void => .void
  | .prim p => .prim p
  | .atom _ (.boxed p) => .ref p.boxClass
  | .atom _ .string => .ref "String"
  | .atom _ .bytes => .ref "Bytes"
  | .atom _ .timestamp => .ref "Timestamp"
  | .atom _ .any => .object
  | .atom _ .record => .ref "Record"
  | .atom _ (.enum name _) => .ref name
  | .atom _ .timeout => .ref "Timeout"
  | .atom _ .throwable => .ref "Fault"
  | .carrier _ .array t => .ref ("[" ++ t.rep.descriptor)
  | .carrier _ .list _ => .ref "List"
  | .carrier _ .promise _ => .ref "Promise"
  | .carrier _ .result _ => .ref "Outcome"
  | .map .. => .ref "Map"
  | .struct _ name _ => .ref name
  | .host _ name _ _ => .ref name

def width (t : Ty) : Nat := t.rep.width

def kind : Ty → Kind
  | .void => .void
  | .prim p => p.kind
  | .atom _ (.boxed p) => p.kind
  | .atom _ .string => .string
  | .atom _ .bytes => .bytes
  | .atom _ .timestamp => .timestamp
  | .atom _ .any => .any
  | .atom _ .record => .struct
  | .atom _ (.enum ..) => .enum
  | .atom _ .timeout | .atom _ .throwable => .object
  | .carrier _ .array _ => .array
  | .carrier _ .list _ => .sequence
  | .carrier _ .promise _ => .promise
  | .carrier _ .result _ => .result
  | .map .. => .map
  | .struct .. => .struct
  | .host .. => .object

def prim? : Ty → Option Prim
  | .prim p => some p
  | .atom _ (.boxed p) => some p
  | _ => none

def isPrimitive : Ty → Bool
  | .prim _ => true
  | _ => false

def isVoid : Ty → Bool
  | .void => true
  | _ => false

def isAny : Ty → Bool
  | .atom _ .any => true
  | _ => false

def isPromise : Ty → Bool
  | .carrier _ .promise _ => true
  | _ => false

def isResult : Ty → Bool
  | .carrier _ .result _ => true
  | _ => false

def isComparable : Ty → Bool
  | .prim _ => true
  | .atom _ (.boxed _) | .atom _ .string | .atom _ .bytes | .atom _ .timestamp | .atom _ (.enum ..) => true
  | .host _ _ _ comparable => comparable
  | _ => false

def mark (nullable : Bool) : String := if nullable then "?" else ""

def text : Ty → String
  | .void => "void"
  | .prim p => p.name
  | .atom n (.boxed p) => p.boxClass ++ mark n
  | .atom n .string => "string" ++ mark n
  | .atom n .bytes => "bytes" ++ mark n
  | .atom n .timestamp => "timestamp" ++ mark n
  | .atom _ .any => "any"
  | .atom n .record => "record" ++ mark n
  | .atom n (.enum name _) => name ++ mark n
  | .atom n .timeout => "timeout" ++ mark n
  | .atom n .throwable => "throwable" ++ mark n
  | .carrier n .array t => "array<" ++ t.text ++ ">" ++ mark n
  | .carrier n .list t => "list<" ++ t.text ++ ">" ++ mark n
  | .carrier n .promise t => "promise<" ++ t.text ++ ">" ++ mark n
  | .carrier n .result t => "result<" ++ t.text ++ ">" ++ mark n
  | .map n k v => "map<" ++ k.text ++ ", " ++ v.text ++ ">" ++ mark n
  | .struct n name _ => name ++ mark n
  | .host n name _ _ => name ++ mark n

def detail (t : Ty) : String := Text.Layout.wrapped "TypeWidget" t.text

def fieldNamed? (fields : List (String × Ty)) (name : String) : Option (String × Ty) :=
  fields.find? fun (n, _) => n.toLower == name.toLower

end Ty

end QueryMachine
