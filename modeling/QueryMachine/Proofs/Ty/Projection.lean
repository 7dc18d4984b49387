import QueryMachine.Proofs.Ty.Regular
import QueryMachine.Ty.ValueType

/-! The projection of types onto value types. The types that value types resolve to have projections in a normal form,
and there the projection forgets nothing but what elements say about null. -/
namespace QueryMachine

namespace ValueType

def isOptional : ValueType → Bool
  | .optional _ => true
  | _ => false

/-- The normal form of value types: no union, null admitted once and only where it is not there already, elements, keys
and values without it, open structs without fields. -/
inductive Canonical : ValueType → Prop
  | void : Canonical .void
  | scalar {p : Prim} : Canonical (.scalar p)
  | string : Canonical .string
  | bytes : Canonical .bytes
  | timestamp : Canonical .timestamp
  | any : Canonical .any
  | array {t : ValueType} : t.isOptional = false → Canonical t → Canonical (.array t)
  | map {k v : ValueType} : k.isOptional = false → Canonical k → v.isOptional = false → Canonical v → Canonical (.map k v)
  | open_ : Canonical .openStruct
  | closed {fs : List (String × ValueType)} : (∀ f ∈ fs, Canonical f.2) → Canonical (.struct true fs)
  | optional {t : ValueType} : t.isOptional = false → t ≠ .any → t ≠ .void → Canonical t → Canonical (.optional t)

inductive Sound : ValueType → Prop
  | void : Sound .void
  | scalar {p : Prim} : Sound (.scalar p)
  | string : Sound .string
  | bytes : Sound .bytes
  | timestamp : Sound .timestamp
  | any : Sound .any
  | array {t : ValueType} : Sound t → Sound (.array t)
  | map {k v : ValueType} : Sound k → Sound v → Sound (.map k v)
  | open_ {fs : List (String × ValueType)} : Sound (.struct false fs)
  | closed {fs : List (String × ValueType)} : Struct.repeated? [] (fs.map (·.1)) = none → (∀ f ∈ fs, Sound f.2) →
    Sound (.struct true fs)
  | optional {t : ValueType} : Sound t → Sound (.optional t)

mutual

/-- Closed structs in a value type, each as often as it is written. -/
def closedStructs : ValueType → Nat
  | .array t | .optional t => closedStructs t
  | .map k v => closedStructs k + closedStructs v
  | .struct true fs => fieldStructs fs + 1
  | .union ts => memberStructs ts
  | _ => 0

def fieldStructs : List (String × ValueType) → Nat
  | [] => 0
  | (_, t) :: rest => closedStructs t + fieldStructs rest

def memberStructs : List ValueType → Nat
  | [] => 0
  | t :: rest => closedStructs t + memberStructs rest

end

variable {t : ValueType}

theorem Canonical.orNull (canonical : t.Canonical) (present : t.isOptional = false) (sized : t ≠ .void) :
    t.orNull.Canonical := by
  cases t with
  | optional t => contradiction
  | any => exact .any
  | _ => exact .optional rfl nofun sized canonical

end ValueType

namespace Ty

open ValueType (Canonical Sound)

variable {t : Ty}

inductive Plain : Ty → Prop
  | void : Plain .void
  | prim {p : Prim} : Plain (.prim p)
  | atom {n : Bool} {a : Atom} : Plain (.atom n a)
  | list {n : Bool} {t : Ty} : Plain t → Plain (.carrier n .list t)
  | map {n : Bool} {k v : Ty} : Plain k → Plain v → Plain (.map n k v)
  | struct {n : Bool} {name : String} {fields : List (String × Ty)} :
    Struct.repeated? [] (fields.map (·.1)) = none → (∀ f ∈ fields, Plain f.2) → Plain (.struct n name fields)

theorem Plain.withNull (n : Bool) (plain : t.Plain) : (t.withNull n).Plain := by
  cases plain with
  | void => exact .void
  | prim => exact .prim
  | atom => exact .atom
  | list element => exact .list element
  | map key value => exact .map key value
  | struct apart fields => exact .struct apart fields

theorem plainHereditary : Hereditary Plain where
  prim _ := .prim
  atom _ _ := .atom
  withNull n plain := plain.withNull n
  elem plain := by
    cases plain with
    | list element => exact element
  carrier plain element _ := by
    cases plain with
    | list _ => exact .list element
  sides plain := by
    cases plain with
    | map key value => exact ⟨key, value⟩
  map key _ value _ := .map key value

theorem Plain.listOf (plain : t.Plain) : (Ty.list t).Plain := .list (plainHereditary.boxed plain)

theorem Plain.mapOf {k v : Ty} (key : k.Plain) (value : v.Plain) : (Ty.mapOf k v).Plain :=
  .map (plainHereditary.boxed key) (plainHereditary.boxed value)

/-! ### Projections -/

theorem fieldTypesIs (fs : List (String × Ty)) : fieldTypes fs = fs.map fun f => (f.1, f.2.valueType) := by
  induction fs with
  | nil => rfl
  | cons f rest ih =>
    rw [fieldTypes, ih]
    rfl

@[simp] theorem presentBoxed (t : Ty) : t.boxed.presentType = t.presentType := by
  cases t <;> rfl

@[simp] theorem presentWithNull (n : Bool) (t : Ty) : (t.withNull n).presentType = t.presentType := by
  cases t with
  | atom m a => cases a <;> rfl
  | carrier m c t => cases c <;> rfl
  | _ => rfl

theorem nullWithNull (n : Bool) (sized : t ≠ .void) (reference : t.isPrimitive = false) :
    (t.withNull n).isNullable = n := by
  cases t with
  | void => contradiction
  | prim p => contradiction
  | _ => rfl

theorem nullWithoutNull (t : Ty) : (t.withNull false).isNullable = false := by
  cases t <;> rfl

theorem Plain.projects (plain : t.Plain) : t.valueType = optionally t.isNullable t.presentType := by
  cases plain with
  | @atom n a =>
    cases a with
    | any => cases n <;> rfl
    | timeout => cases n <;> rfl
    | throwable => cases n <;> rfl
    | _ => rfl
  | _ => rfl

theorem presentSized (plain : t.Plain) (sized : t ≠ .void) : t.presentType ≠ .void := by
  cases plain with
  | void => contradiction
  | @atom n a => cases a <;> exact nofun
  | _ => exact nofun

theorem canonicalOptionally (plain : t.Plain) (canonical : t.presentType.Canonical)
    (present : t.presentType.isOptional = false) : t.valueType.Canonical := by
  rw [plain.projects]
  unfold optionally
  split
  · next nullable =>
    refine canonical.orNull present (presentSized plain ?_)
    rintro rfl
    contradiction
  · exact canonical

theorem Plain.present (plain : t.Plain) : t.presentType.Canonical ∧ t.presentType.isOptional = false := by
  induction plain with
  | void => exact ⟨.void, rfl⟩
  | prim => exact ⟨.scalar, rfl⟩
  | @atom n a =>
    cases a with
    | boxed p => exact ⟨.scalar, rfl⟩
    | string => exact ⟨.string, rfl⟩
    | bytes => exact ⟨.bytes, rfl⟩
    | timestamp => exact ⟨.timestamp, rfl⟩
    | any => exact ⟨.any, rfl⟩
    | record => exact ⟨.open_, rfl⟩
    | enum name variants => exact ⟨.string, rfl⟩
    | timeout => exact ⟨.any, rfl⟩
    | throwable => exact ⟨.any, rfl⟩
  | list _ element => exact ⟨.array element.2 element.1, rfl⟩
  | map _ _ key value => exact ⟨.map key.2 key.1 value.2 value.1, rfl⟩
  | @struct n name fields _ plain all =>
    refine ⟨?_, rfl⟩
    rw [presentType, fieldTypesIs]
    refine .closed ?_
    intro f inside
    obtain ⟨g, there, rfl⟩ := List.mem_map.1 inside
    exact canonicalOptionally (plain g there) (all g there).1 (all g there).2

theorem Plain.canonical (plain : t.Plain) : t.valueType.Canonical :=
  canonicalOptionally plain plain.present.1 plain.present.2

theorem soundOptionally (plain : t.Plain) (sound : t.presentType.Sound) : t.valueType.Sound := by
  rw [plain.projects]
  unfold optionally
  split
  · generalize t.presentType = v at sound
    cases sound with
    | any => exact .any
    | optional inner => exact .optional inner
    | _ => exact .optional (by constructor <;> assumption)
  · exact sound

theorem Plain.sound (plain : t.Plain) : t.valueType.Sound := by
  refine soundOptionally plain ?_
  induction plain with
  | void => exact .void
  | prim => exact .scalar
  | @atom n a => cases a <;> constructor
  | list _ element => exact .array element
  | map _ _ key value => exact .map key value
  | @struct n name fields apart plain all =>
    rw [presentType, fieldTypesIs]
    refine .closed ?_ ?_
    · rw [List.map_map]
      exact apart
    · intro f inside
      obtain ⟨g, there, rfl⟩ := List.mem_map.1 inside
      exact soundOptionally (plain g there) (all g there)

theorem Plain.presentIs (plain : t.Plain) (present : t.valueType.isOptional = false) : t.presentType = t.valueType := by
  rw [plain.projects] at present ⊢
  unfold optionally at present ⊢
  split
  · next nullable =>
    rw [if_pos nullable] at present
    generalize t.presentType = v at present
    cases v <;> first | rfl | contradiction
  · rfl

theorem Plain.nonNullProjects (plain : t.Plain) : t.nonNull.valueType = t.presentType := by
  rw [nonNull, (plain.withNull false).projects, nullWithoutNull, presentWithNull]
  rfl

theorem Plain.orNullProjects (plain : t.Plain) (sized : t ≠ .void) : t.boxed.orNull.valueType = t.presentType.orNull := by
  have known : t.boxed ≠ .void := by
    cases t <;> first | contradiction | exact nofun
  rw [orNull, ((plainHereditary.boxed plain).withNull true).projects, nullWithNull true known (boxedReference t),
    presentWithNull, presentBoxed]
  rfl

end Ty

end QueryMachine
