import QueryMachine.Resolve
import QueryMachine.Value.Literal

/-! The types that come up in operator trees: no void anywhere, elements held as references, structs that are
known. They are closed under what builders do with types. -/
namespace QueryMachine.Ty

theorem nullableWidth {t : Ty} (nullable : t.isNullable = true) : t.width = 1 := by
  cases t with
  | void => contradiction
  | prim p => contradiction
  | atom n a => cases a <;> rfl
  | carrier n c t => cases c <;> rfl
  | map n k v => rfl
  | struct n name fs => rfl
  | host n name ps c => rfl

theorem widthPrim (p : Prim) : width (.prim p) = p.width := rfl

theorem widthPos {t : Ty} (sized : t ≠ .void) : 0 < t.width := by
  cases t with
  | void => contradiction
  | prim p => cases p <;> decide
  | atom n a => cases a <;> exact Nat.one_pos
  | carrier n c t => cases c <;> exact Nat.one_pos
  | map n k v => exact Nat.one_pos
  | struct n name fs => exact Nat.one_pos
  | host n name ps c => exact Nat.one_pos

theorem referenceWidth {t : Ty} (sized : t ≠ .void) (reference : t.isPrimitive = false) : t.width = 1 := by
  cases t with
  | void => contradiction
  | prim p => contradiction
  | atom n a => cases a <;> rfl
  | carrier n c t => cases c <;> rfl
  | map n k v => rfl
  | struct n name fs => rfl
  | host n name ps c => rfl

inductive Regular (known : String → Prop) : Ty → Prop
  | prim {p : Prim} : Regular known (.prim p)
  | atom {n : Bool} {a : Atom} : Regular known (.atom n a)
  | list {n : Bool} {t : Ty} : Regular known t → t.isPrimitive = false → Regular known (.carrier n .list t)
  | map {n : Bool} {k v : Ty} : Regular known k → k.isPrimitive = false → Regular known v → v.isPrimitive = false →
    Regular known (.map n k v)
  | struct {n : Bool} {name : String} {fields : List (String × Ty)} : known name →
    (∀ f ∈ fields, Regular known f.2) → Regular known (.struct n name fields)

variable {known : String → Prop}

theorem Regular.mono {known' : String → Prop} (more : ∀ name, known name → known' name) {t : Ty}
    (regular : Regular known t) : Regular known' t := by
  induction regular with
  | prim => exact .prim
  | atom => exact .atom
  | list _ reference ih => exact .list ih reference
  | map _ key _ value ihk ihv => exact .map ihk key ihv value
  | struct is _ ih => exact .struct (more _ is) ih

theorem Regular.sized {t : Ty} (regular : Regular known t) : t ≠ .void := by
  cases regular <;> exact nofun

theorem Regular.withNull {t : Ty} (n : Bool) (regular : Regular known t) : Regular known (t.withNull n) := by
  cases regular with
  | prim => exact .prim
  | atom => exact .atom
  | list element reference => exact .list element reference
  | map key k value v => exact .map key k value v
  | struct is fields => exact .struct is fields

theorem Regular.boxed {t : Ty} (regular : Regular known t) : Regular known t.boxed := by
  cases regular with
  | prim => exact .atom
  | atom => exact .atom
  | list element reference => exact .list element reference
  | map key k value v => exact .map key k value v
  | struct is fields => exact .struct is fields

theorem Regular.width {t : Ty} (regular : Regular known t) (reference : t.isPrimitive = false) : t.width = 1 :=
  referenceWidth regular.sized reference

theorem boxedReference (t : Ty) : t.boxed.isPrimitive = false := by
  cases t <;> rfl

theorem withNullReference {t : Ty} (n : Bool) (reference : t.isPrimitive = false) :
    (t.withNull n).isPrimitive = false := by
  cases t with
  | prim p => contradiction
  | _ => rfl

theorem orNullReference (t : Ty) : t.boxed.orNull.isPrimitive = false := withNullReference true (boxedReference t)

theorem withNullWidth (t : Ty) (n : Bool) : (t.withNull n).width = t.width := by
  cases t with
  | atom m a => cases a <;> rfl
  | carrier m c t => cases c <;> rfl
  | _ => rfl

theorem Regular.listOf {t : Ty} (regular : Regular known t) : Regular known (Ty.list t) :=
  .list regular.boxed (boxedReference t)

theorem Regular.mapOf {k v : Ty} (key : Regular known k) (value : Regular known v) : Regular known (Ty.mapOf k v) :=
  .map key.boxed (boxedReference k) value.boxed (boxedReference v)

def parts (l r : Ty) : Ty :=
  match l, r with
  | .carrier _ c s, .carrier _ d t => if c = d then .carrier true c (unify s t).boxed else any
  | .map _ k v, .map _ k' v' => .map true (unify k k').boxed (unify v v').boxed
  | .struct _ a fs, .struct _ b gs => if a = b ∧ fs = gs then l else any
  | .atom _ .record, .atom _ .record => l
  | _, _ => any

theorem unifyIs (l r : Ty) : unify l r =
    (if l.isPrimitive && r.isPrimitive then join (parts l r) l r else join (parts l r) l.boxed r.boxed).withNull
      (l.isNullable || r.isNullable) := by
  conv => lhs; unfold unify
  rfl

theorem joinReference {parts l r : Ty} (whole : parts.isPrimitive = false) (left : l.isPrimitive = false)
    (right : r.isPrimitive = false) : (join parts l r).isPrimitive = false := by
  simp only [Ty.join, left]
  split
  · rfl
  · split
    · split
      · exact right
      · exact left
    · split
      · rfl
      · split
        · exact left
        · split
          · split
            · exact whole
            · exact left
          · rfl

theorem partsReference {l : Ty} (left : l.isPrimitive = false) (r : Ty) : (parts l r).isPrimitive = false := by
  unfold parts
  split
  · split <;> rfl
  · rfl
  · split
    · exact left
    · rfl
  · exact left
  · rfl

theorem unifyReference {l : Ty} (left : l.isPrimitive = false) (r : Ty) : (Ty.unify l r).isPrimitive = false := by
  rw [unifyIs, left, Bool.false_and]
  exact withNullReference _ (joinReference (partsReference left r) (boxedReference l) (boxedReference r))

theorem foldlReference {t : Ty} (first : t.isPrimitive = false) (ts : List Ty) :
    (ts.foldl Ty.unify t).isPrimitive = false := by
  induction ts generalizing t with
  | nil => exact first
  | cons t' ts ih => exact ih (unifyReference first t')

theorem nullableReference {t : Ty} (nullable : t.isNullable = true) : t.isPrimitive = false := by
  cases t with
  | prim p => contradiction
  | _ => rfl

structure Hereditary (P : Ty → Prop) : Prop where
  prim (p : Prim) : P (.prim p)
  atom (n : Bool) (a : Atom) : P (.atom n a)
  withNull {t : Ty} (n : Bool) : P t → P (t.withNull n)
  elem {n : Bool} {c : Carrier} {t : Ty} : P (.carrier n c t) → P t
  carrier {n : Bool} {c : Carrier} {s t : Ty} : P (.carrier n c s) → P t → t.isPrimitive = false → P (.carrier true c t)
  sides {n : Bool} {k v : Ty} : P (.map n k v) → P k ∧ P v
  map {k v : Ty} : P k → k.isPrimitive = false → P v → v.isPrimitive = false → P (.map true k v)

namespace Hereditary

variable {P : Ty → Prop}

theorem boxed (hereditary : Hereditary P) {t : Ty} (h : P t) : P t.boxed := by
  cases t with
  | prim p => exact hereditary.atom true (.boxed p)
  | _ => exact h

theorem join (hereditary : Hereditary P) {parts l r : Ty} (whole : P parts) (left : P l) (right : P r) :
    P (join parts l r) := by
  simp only [Ty.join]
  split
  · exact hereditary.atom true .any
  · split
    · split
      · exact right
      · exact left
    · split
      · split
        · exact hereditary.prim .float64
        · exact hereditary.atom true (.boxed .float64)
      · split
        · exact left
        · split
          · split
            · exact whole
            · exact left
          · exact hereditary.atom true .any

theorem unify (hereditary : Hereditary P) {l r : Ty} (left : P l) (right : P r) : P (unify l r) := by
  have whole : P (parts l r) := by
    unfold parts
    split
    · split
      · have element := hereditary.unify (hereditary.elem left) (hereditary.elem right)
        exact hereditary.carrier left (hereditary.boxed element) (boxedReference _)
      · exact hereditary.atom true .any
    · have key := hereditary.unify (hereditary.sides left).1 (hereditary.sides right).1
      have value := hereditary.unify (hereditary.sides left).2 (hereditary.sides right).2
      exact hereditary.map (hereditary.boxed key) (boxedReference _) (hereditary.boxed value) (boxedReference _)
    · split
      · exact left
      · exact hereditary.atom true .any
    · exact left
    · exact hereditary.atom true .any
  rw [unifyIs]
  refine hereditary.withNull _ ?_
  split
  · exact hereditary.join whole left right
  · exact hereditary.join whole (hereditary.boxed left) (hereditary.boxed right)
termination_by sizeOf l

theorem foldl (hereditary : Hereditary P) {t : Ty} {ts : List Ty} (first : P t) (rest : ∀ t ∈ ts, P t) :
    P (ts.foldl Ty.unify t) := by
  induction ts generalizing t with
  | nil => exact first
  | cons t' ts ih =>
    exact ih (hereditary.unify first (rest t' List.mem_cons_self)) fun u inside =>
      rest u (List.mem_cons_of_mem t' inside)

theorem unifyAll (hereditary : Hereditary P) {ts : List Ty} {t : Ty} (all : ∀ t ∈ ts, P t)
    (is : unifyAll ts = .ok t) : P t := by
  cases ts with
  | nil => contradiction
  | cons t ts =>
    cases is
    exact hereditary.foldl (all t List.mem_cons_self) fun u inside => all u (List.mem_cons_of_mem t inside)

theorem unifyOrAny (hereditary : Hereditary P) {ts : List Ty} (all : ∀ t ∈ ts, P t) : P (unifyOrAny ts) := by
  cases ts with
  | nil => exact hereditary.atom true .any
  | cons t ts => exact hereditary.foldl (all t List.mem_cons_self) fun u inside => all u (List.mem_cons_of_mem t inside)

end Hereditary

theorem regularHereditary : Hereditary (Regular known) where
  prim _ := .prim
  atom _ _ := .atom
  withNull n regular := regular.withNull n
  elem regular := by
    cases regular with
    | list element _ => exact element
  carrier regular element reference := by
    cases regular with
    | list _ _ => exact .list element reference
  sides regular := by
    cases regular with
    | map key _ value _ => exact ⟨key, value⟩
  map key keyReference value valueReference := .map key keyReference value valueReference

theorem regularLiteralBy {h : Heap} {inner : Value → Ty} (all : ∀ v, Regular known (inner v)) (v : Value) :
    Regular known (h.literalTypeBy inner v) := by
  have each : ∀ ts : List Ty, (∀ t ∈ ts, ∃ v, t = inner v) → Regular known (Ty.unifyOrAny ts) := by
    intro ts from_
    refine regularHereditary.unifyOrAny ?_
    intro t inside
    obtain ⟨v, rfl⟩ := from_ t inside
    exact all v
  cases v with
  | list a =>
    refine ((each _ ?_).listOf).withNull false
    intro t inside
    obtain ⟨v, _, rfl⟩ := List.mem_map.1 inside
    exact ⟨v, rfl⟩
  | map a =>
    refine ((each _ ?_).mapOf (each _ ?_)).withNull false
    · intro t inside
      obtain ⟨entry, _, rfl⟩ := List.mem_map.1 inside
      exact ⟨entry.1, rfl⟩
    · intro t inside
      obtain ⟨entry, _, rfl⟩ := List.mem_map.1 inside
      exact ⟨entry.2, rfl⟩
  | int v => exact .prim
  | long v => exact .prim
  | float v => exact .prim
  | double v => exact .prim
  | boxed b => exact .prim
  | _ => exact .atom

theorem regularLiteral (h : Heap) (v : Value) : Regular known (h.literalType v) := by
  have within : ∀ depth v, Regular known (h.literalTypeWithin depth v) := by
    intro depth
    induction depth with
    | zero => exact regularLiteralBy fun _ => .atom
    | succ depth ih => exact regularLiteralBy ih
  exact within _ v

end QueryMachine.Ty
