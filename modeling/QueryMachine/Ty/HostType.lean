import QueryMachine.Ty.Basic

/-! Types of the host, as it describes them. -/
namespace QueryMachine

inductive HostType where
  | void
  | prim (p : Prim)
  | boxed (p : Prim)
  | string
  | bytes
  | timestamp
  | object
  | timeout
  | record
  | array (elem : HostType)
  | list (elem : HostType)
  | map (key value : HostType)
  | enum (name : String) (variants : List String)
  | future (inner : HostType)
  | provider (inner : HostType)
  | cls (name : String) (properties : List (String × HostType)) (comparable : Bool)
  | unknown (name : String)

namespace HostType

mutual

def same : HostType → HostType → Bool
  | .void, .void | .string, .string | .bytes, .bytes | .timestamp, .timestamp | .object, .object
  | .timeout, .timeout | .record, .record => true
  | .prim p, .prim q => p == q
  | .boxed p, .boxed q => p == q
  | .array s, .array t => same s t
  | .list s, .list t => same s t
  | .map k v, .map l w => same k l && same v w
  | .enum a vs, .enum b ws => a == b && vs == ws
  | .future s, .future t => same s t
  | .provider s, .provider t => same s t
  | .cls a fs c, .cls b gs d => a == b && c == d && sameFields fs gs
  | .unknown a, .unknown b => a == b
  | _, _ => false

def sameFields : List (String × HostType) → List (String × HostType) → Bool
  | [], [] => true
  | (a, s) :: fs, (b, t) :: gs => a == b && same s t && sameFields fs gs
  | _, _ => false

end

mutual

theorem eqOfSame : ∀ {s t : HostType}, same s t = true → s = t
  | .void, t, h | .string, t, h | .bytes, t, h | .timestamp, t, h | .object, t, h | .timeout, t, h
  | .record, t, h => by cases t <;> simp_all [same]
  | .prim _, t, h | .boxed _, t, h | .enum _ _, t, h | .unknown _, t, h => by
    cases t <;> simp_all [same]
  | .array _, t, h => by
    cases t <;> simp only [same, Bool.false_eq_true] at h
    rw [eqOfSame h]
  | .list _, t, h => by
    cases t <;> simp only [same, Bool.false_eq_true] at h
    rw [eqOfSame h]
  | .map _ _, t, h => by
    cases t <;> simp only [same, Bool.and_eq_true, Bool.false_eq_true] at h
    rw [eqOfSame h.1, eqOfSame h.2]
  | .future _, t, h => by
    cases t <;> simp only [same, Bool.false_eq_true] at h
    rw [eqOfSame h]
  | .provider _, t, h => by
    cases t <;> simp only [same, Bool.false_eq_true] at h
    rw [eqOfSame h]
  | .cls _ _ _, t, h => by
    cases t <;> simp only [same, Bool.and_eq_true, beq_iff_eq, Bool.false_eq_true] at h
    rw [h.1.1, h.1.2, eqOfSameFields h.2]

theorem eqOfSameFields : ∀ {fs gs : List (String × HostType)}, sameFields fs gs = true → fs = gs
  | [], gs, h => by cases gs <;> simp_all [sameFields]
  | (a, s) :: fs, gs, h => by
    match gs, h with
    | [], h => simp [sameFields] at h
    | (b, t) :: gs, h =>
      simp only [sameFields, Bool.and_eq_true, beq_iff_eq] at h
      obtain ⟨⟨rfl, e⟩, r⟩ := h
      rw [eqOfSame e, eqOfSameFields r]

end

mutual

theorem sameSelf : ∀ t : HostType, same t t = true
  | .void | .string | .bytes | .timestamp | .object | .timeout | .record => by simp [same]
  | .prim _ | .boxed _ | .enum _ _ | .unknown _ => by simp [same]
  | .array t | .list t | .future t | .provider t => by simp [same, sameSelf t]
  | .map k v => by simp [same, sameSelf k, sameSelf v]
  | .cls _ fs _ => by simp [same, sameFieldsSelf fs]

theorem sameFieldsSelf : ∀ fs : List (String × HostType), sameFields fs fs = true
  | [] => by simp [sameFields]
  | (_, t) :: fs => by simp [sameFields, sameSelf t, sameFieldsSelf fs]

end

theorem sameIff {s t : HostType} : same s t = true ↔ s = t :=
  ⟨eqOfSame, fun h => h ▸ sameSelf s⟩

instance : DecidableEq HostType := fun _ _ => decidable_of_iff _ sameIff

def primLabel : Prim → String
  | .boolean => "Boolean"
  | .int8 => "Int8"
  | .int16 => "Int16"
  | .int32 => "Int32"
  | .int64 => "Int64"
  | .float32 => "Float32"
  | .float64 => "Float64"

def text : HostType → String
  | .void => "Void"
  | .prim p => Text.Layout.wrapped "Primitive" (primLabel p)
  | .boxed p => Text.Layout.wrapped "Boxed" (primLabel p)
  | .string => "String"
  | .bytes => "Bytes"
  | .timestamp => "Timestamp"
  | .object => "Object"
  | .timeout => "Timeout"
  | .record => "Record"
  | .array t => text t ++ "[]"
  | .list t => "List<" ++ text t ++ ">"
  | .map k v => "Map<" ++ text k ++ ", " ++ text v ++ ">"
  | .enum name _ => "enum " ++ name
  | .future t => "Future<" ++ text t ++ ">"
  | .provider t => "Provider<" ++ text t ++ ">"
  | .cls name _ _ | .unknown name => name

def scalar? : HostType → Option Ty
  | .void => some .void
  | .prim p => some (.prim p)
  | .boxed p => some (.boxedOf p)
  | .string => some .string
  | .bytes => some .bytes
  | .timestamp => some .timestamp
  | .object => some .any
  | .timeout => some .timeout
  | _ => none

end HostType

end QueryMachine
