import QueryMachine.Ty.Basic

/-! Value types as the planner names them, and the projection of types back onto them. Optional is the only
source of nullability there. -/
namespace QueryMachine

inductive ValueType where
  | void
  | scalar (p : Prim)
  | string
  | bytes
  | timestamp
  | any
  | array (elem : ValueType)
  | map (key value : ValueType)
  | struct (closed : Bool) (fields : List (String × ValueType))
  | optional (inner : ValueType)
  | union (members : List ValueType)

namespace ValueType

mutual

def same : ValueType → ValueType → Bool
  | .void, .void | .string, .string | .bytes, .bytes | .timestamp, .timestamp | .any, .any => true
  | .scalar p, .scalar q => p == q
  | .array s, .array t => same s t
  | .map k v, .map l w => same k l && same v w
  | .struct c fs, .struct d gs => c == d && sameFields fs gs
  | .optional s, .optional t => same s t
  | .union ss, .union ts => sameMembers ss ts
  | _, _ => false

def sameFields : List (String × ValueType) → List (String × ValueType) → Bool
  | [], [] => true
  | (a, s) :: fs, (b, t) :: gs => a == b && same s t && sameFields fs gs
  | _, _ => false

def sameMembers : List ValueType → List ValueType → Bool
  | [], [] => true
  | s :: ss, t :: ts => same s t && sameMembers ss ts
  | _, _ => false

end

mutual

theorem eqOfSame : ∀ {s t : ValueType}, same s t = true → s = t
  | .void, t, h => by cases t <;> simp_all [same]
  | .scalar _, t, h => by cases t <;> simp_all [same]
  | .string, t, h => by cases t <;> simp_all [same]
  | .bytes, t, h => by cases t <;> simp_all [same]
  | .timestamp, t, h => by cases t <;> simp_all [same]
  | .any, t, h => by cases t <;> simp_all [same]
  | .array _, t, h => by
    cases t <;> simp only [same, Bool.false_eq_true] at h
    rw [eqOfSame h]
  | .map _ _, t, h => by
    cases t <;> simp only [same, Bool.and_eq_true, Bool.false_eq_true] at h
    rw [eqOfSame h.1, eqOfSame h.2]
  | .struct _ _, t, h => by
    cases t <;> simp only [same, Bool.and_eq_true, beq_iff_eq, Bool.false_eq_true] at h
    rw [h.1, eqOfSameFields h.2]
  | .optional _, t, h => by
    cases t <;> simp only [same, Bool.false_eq_true] at h
    rw [eqOfSame h]
  | .union _, t, h => by
    cases t <;> simp only [same, Bool.false_eq_true] at h
    rw [eqOfSameMembers h]

theorem eqOfSameFields : ∀ {fs gs : List (String × ValueType)}, sameFields fs gs = true → fs = gs
  | [], gs, h => by cases gs <;> simp_all [sameFields]
  | (a, s) :: fs, gs, h => by
    match gs, h with
    | [], h => simp [sameFields] at h
    | (b, t) :: gs, h =>
      simp only [sameFields, Bool.and_eq_true, beq_iff_eq] at h
      obtain ⟨⟨rfl, e⟩, r⟩ := h
      rw [eqOfSame e, eqOfSameFields r]

theorem eqOfSameMembers : ∀ {ss ts : List ValueType}, sameMembers ss ts = true → ss = ts
  | [], ts, h => by cases ts <;> simp_all [sameMembers]
  | s :: ss, ts, h => by
    match ts, h with
    | [], h => simp [sameMembers] at h
    | t :: ts, h =>
      simp only [sameMembers, Bool.and_eq_true] at h
      rw [eqOfSame h.1, eqOfSameMembers h.2]

end

mutual

theorem sameSelf : ∀ t : ValueType, same t t = true
  | .void | .string | .bytes | .timestamp | .any => by simp [same]
  | .scalar _ => by simp [same]
  | .array t => by simp [same, sameSelf t]
  | .map k v => by simp [same, sameSelf k, sameSelf v]
  | .struct _ fs => by simp [same, sameFieldsSelf fs]
  | .optional t => by simp [same, sameSelf t]
  | .union ts => by simp [same, sameMembersSelf ts]

theorem sameFieldsSelf : ∀ fs : List (String × ValueType), sameFields fs fs = true
  | [] => by simp [sameFields]
  | (_, t) :: fs => by simp [sameFields, sameSelf t, sameFieldsSelf fs]

theorem sameMembersSelf : ∀ ts : List ValueType, sameMembers ts ts = true
  | [] => by simp [sameMembers]
  | t :: ts => by simp [sameMembers, sameSelf t, sameMembersSelf ts]

end

theorem sameIff {s t : ValueType} : same s t = true ↔ s = t :=
  ⟨eqOfSame, fun h => h ▸ sameSelf s⟩

instance : DecidableEq ValueType := fun _ _ => decidable_of_iff _ sameIff

def orNull : ValueType → ValueType
  | .optional t => .optional t
  | .any => .any
  | t => .optional t

def openStruct : ValueType := .struct false []

mutual

def text : ValueType → String
  | .void => "void"
  | .scalar p => p.name
  | .string => "string"
  | .bytes => "bytes"
  | .timestamp => "timestamp"
  | .any => "any"
  | .array t => "array<" ++ text t ++ ">"
  | .map k v => "map<" ++ text k ++ ", " ++ text v ++ ">"
  | .struct closed fs =>
    (if closed then "" else "open ") ++ "struct\x7b" ++ Text.Layout.separated (fieldTexts fs) ++ "\x7d"
  | .optional t => "optional<" ++ text t ++ ">"
  | .union ts => "union<" ++ Text.Layout.separated (memberTexts ts) ++ ">"

def fieldTexts : List (String × ValueType) → List String
  | [] => []
  | (name, t) :: rest => (name ++ ": " ++ text t) :: fieldTexts rest

def memberTexts : List ValueType → List String
  | [] => []
  | t :: rest => text t :: memberTexts rest

end

end ValueType

namespace Ty

def optionally (nullable : Bool) (v : ValueType) : ValueType := if nullable then v.orNull else v

mutual

/-- The planner's view of a type: elements, keys and values lose their nullability, promises and results
stand for what they hold. -/
def valueType : Ty → ValueType
  | .void => .void
  | .prim p => .scalar p
  | .atom n (.boxed p) => optionally n (.scalar p)
  | .atom n .string => optionally n .string
  | .atom n .bytes => optionally n .bytes
  | .atom n .timestamp => optionally n .timestamp
  | .atom _ .any => .any
  | .atom n .record => optionally n .openStruct
  | .atom n (.enum ..) => optionally n .string
  | .atom _ .timeout | .atom _ .throwable => .any
  | .carrier n .array t | .carrier n .list t => optionally n (.array (presentType t))
  | .carrier _ .promise t | .carrier _ .result t => valueType t
  | .map n k v => optionally n (.map (presentType k) (presentType v))
  | .struct n _ fs => optionally n (.struct true (fieldTypes fs))
  | .host .. => .any

def presentType : Ty → ValueType
  | .void => .void
  | .prim p => .scalar p
  | .atom _ (.boxed p) => .scalar p
  | .atom _ .string => .string
  | .atom _ .bytes => .bytes
  | .atom _ .timestamp => .timestamp
  | .atom _ .any => .any
  | .atom _ .record => .openStruct
  | .atom _ (.enum ..) => .string
  | .atom _ .timeout | .atom _ .throwable => .any
  | .carrier _ .array t | .carrier _ .list t => .array (presentType t)
  | .carrier _ .promise t | .carrier _ .result t => valueType t
  | .map _ k v => .map (presentType k) (presentType v)
  | .struct _ _ fs => .struct true (fieldTypes fs)
  | .host .. => .any

def fieldTypes : List (String × Ty) → List (String × ValueType)
  | [] => []
  | (name, t) :: rest => (name, valueType t) :: fieldTypes rest

end

def valueKind : Ty → Kind
  | .carrier _ .promise t | .carrier _ .result t => valueKind t
  | t => t.kind

end Ty

end QueryMachine
