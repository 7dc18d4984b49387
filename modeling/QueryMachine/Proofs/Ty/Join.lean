import Mathlib.Data.Set.Defs
import QueryMachine.Proofs.Ty.Head

/-! The common type of two types is a join. Heads meet, nullability meets, and so do the types that the two are over;
each on its own, so the laws of the whole are the laws of its parts. -/
namespace QueryMachine.Ty

variable {N : Naming}

theorem headUnify {s t : Ty} (left : Within N s) (right : Within N t) : (unify s t).head = s.head.join t.head := by
  have meets := unifyMeets left right
  generalize isUnify : unify s t = u at meets
  cases meets with
  | number isLeft isRight common =>
    rw [isLeft, isRight, Head.joinNumbers, common]
    split <;> rfl
  | @atom m n a plain =>
    have heads (k : Bool) : head (.atom k a) = .plain a := (headWithNull k (.atom m a)).trans plain
    rw [heads, heads, heads, Head.joinSelf]
  | @carrier m n c e d elements =>
    cases c with
    | array =>
      have element := headUnify left.element.1 right.element.1
      rw [← elements rfl, Head.joinSelf] at element
      simp only [head, element, ← elements rfl, Head.joinSelf]
    | _ => exact (Head.joinSelf _).symm
  | apart _ lost => exact lost.symm
  | _ => exact (Head.joinSelf _).symm
termination_by sizeOf s

theorem primitiveNoNull {t : Ty} (primitive : t.isPrimitive = true) : t.isNullable = false := by
  cases t <;> first | rfl | contradiction

theorem numberInner {t : Ty} {p : Prim} (number : t.head = .number p) : t.inner = [] := by
  obtain form | form := numberForm number
  · rw [form]; rfl
  · rw [form]; rfl

theorem primitiveUnify {s t : Ty} (left : Within N s) (right : Within N t) :
    (unify s t).isPrimitive = (s.isPrimitive && t.isPrimitive && (s.head.join t.head).isNumber) := by
  have meets := unifyMeets left right
  generalize isUnify : unify s t = u at meets
  cases meets with
  | number isLeft isRight common =>
    rw [isLeft, isRight, Head.joinNumbers, common]
    split
    · next both => rw [both]; rfl
    · next notBoth =>
      rw [Bool.eq_false_iff.2 notBoth]
      rfl
  | apart _ lost =>
    rw [lost]
    exact (Bool.and_false _).symm
  | _ => rfl

theorem nullUnify {s t : Ty} (left : Within N s) (right : Within N t) :
    (unify s t).isNullable = (s.isNullable || t.isNullable) := by
  have meets := unifyMeets left right
  generalize isUnify : unify s t = u at meets
  cases meets with
  | number isLeft isRight common =>
    split
    · next both =>
      rw [Bool.and_eq_true] at both
      rw [primitiveNoNull both.1, primitiveNoNull both.2]
      rfl
    · rfl
  | _ => rfl

theorem innerUnify {s t : Ty} (left : Within N s) (right : Within N t) :
    (unify s t).inner = if s.head = t.head then List.zipWith unify s.inner t.inner else [] := by
  have meets := unifyMeets left right
  generalize isUnify : unify s t = u at meets
  cases meets with
  | number isLeft isRight common =>
    rw [numberInner isLeft, numberInner isRight]
    split <;> split <;> rfl
  | @carrier m n c e d elements =>
    have heads : head (.carrier m c e) = head (.carrier n c d) := by
      cases c with
      | array => exact congrArg Head.array (elements rfl)
      | _ => rfl
    rw [if_pos heads]
    rfl
  | apart apart _ =>
    rw [if_neg apart]
    rfl
  | atom => split <;> rfl
  | _ => exact (if_pos rfl).symm

theorem Within.unify {s t : Ty} (left : Within N s) (right : Within N t) : Within N (unify s t) := by
  have meets := unifyMeets left right
  generalize isUnify : Ty.unify s t = u at meets
  cases meets with
  | number =>
    split
    · exact ⟨.prim, nofun⟩
    · exact ⟨.atom, nofun⟩
  | void => exact left
  | @atom m n a => exact ⟨.atom, by cases a <;> exact left.named⟩
  | carrier =>
    have element := left.element.1.unify right.element.1
    exact ⟨.carrier element.made (unifyReference left.element.2 _), element.named⟩
  | map =>
    have key := left.sides.1.1.unify right.sides.1.1
    have value := left.sides.2.1.unify right.sides.2.1
    exact ⟨.map key.made (unifyReference left.sides.1.2 _) value.made (unifyReference left.sides.2.2 _),
      fun x mem => (List.mem_append.1 mem).elim (key.named x) (value.named x)⟩
  | struct => exact ⟨.struct, left.named⟩
  | host => exact ⟨.host, left.named⟩
  | apart => exact ⟨.atom, nofun⟩
termination_by sizeOf s

theorem eqOfParts {s t : Ty} (heads : s.head = t.head) (form : s.isPrimitive = t.isPrimitive)
    (null : s.isNullable = t.isNullable) (inner : s.inner = t.inner) : s = t := by
  rw [← assembleSelf s, ← assembleSelf t, heads, form, null, inner]

theorem Within.inner {s : Ty} (within : Within N s) : ∀ e ∈ s.inner, Within N e := by
  intro e inside
  cases s with
  | carrier n c t =>
    cases List.mem_singleton.1 inside
    exact within.element.1
  | map n k v =>
    obtain rfl | inside := List.mem_cons.1 inside
    · exact within.sides.1.1
    · cases List.mem_singleton.1 inside
      exact within.sides.2.1
  | _ => exact nomatch inside

theorem innerSize {s e : Ty} (inside : e ∈ s.inner) : sizeOf e < sizeOf s := by
  cases s with
  | carrier n c t =>
    cases List.mem_singleton.1 inside
    simp only [carrier.sizeOf_spec]
    omega
  | map n k v =>
    simp only [map.sizeOf_spec]
    obtain rfl | inside := List.mem_cons.1 inside
    · omega
    · cases List.mem_singleton.1 inside
      omega
  | _ => exact nomatch inside

theorem zipComm {f : Ty → Ty → Ty} {xs ys : List Ty} (comm : ∀ x ∈ xs, ∀ y ∈ ys, f x y = f y x) :
    List.zipWith f xs ys = List.zipWith f ys xs := by
  induction xs generalizing ys with
  | nil => simp
  | cons x xs ih =>
    cases ys with
    | nil => rfl
    | cons y ys =>
      have rest := ih fun x' inside y' inside' =>
        comm x' (List.mem_cons_of_mem x inside) y' (List.mem_cons_of_mem y inside')
      rw [List.zipWith_cons_cons, List.zipWith_cons_cons, comm x List.mem_cons_self y List.mem_cons_self, rest]

theorem zipAssoc {f : Ty → Ty → Ty} {xs ys zs : List Ty}
    (assoc : ∀ x ∈ xs, ∀ y ∈ ys, ∀ z ∈ zs, f (f x y) z = f x (f y z)) :
    List.zipWith f (List.zipWith f xs ys) zs = List.zipWith f xs (List.zipWith f ys zs) := by
  induction xs generalizing ys zs with
  | nil => rfl
  | cons x xs ih =>
    cases ys with
    | nil => rfl
    | cons y ys =>
      cases zs with
      | nil => rfl
      | cons z zs => simp_all

theorem unifySelf {s : Ty} (within : Within N s) : unify s s = s := within.made.unifySelf

theorem unifyComm {s t : Ty} (left : Within N s) (right : Within N t) : unify s t = unify t s := by
  apply eqOfParts
  · rw [headUnify left right, headUnify right left, Head.joinComm]
  · rw [primitiveUnify left right, primitiveUnify right left, Head.joinComm, Bool.and_comm s.isPrimitive]
  · rw [nullUnify left right, nullUnify right left, Bool.or_comm]
  · rw [innerUnify left right, innerUnify right left]
    by_cases same : s.head = t.head
    · rw [if_pos same, if_pos same.symm]
      exact zipComm fun e inside d inside' => unifyComm (left.inner e inside) (right.inner d inside')
    · rw [if_neg same, if_neg (Ne.symm same)]
termination_by sizeOf s
decreasing_by exact innerSize inside

theorem unifyAssoc {s t u : Ty} (left : Within N s) (middle : Within N t) (right : Within N u) :
    unify (unify s t) u = unify s (unify t u) := by
  have first := left.unify middle
  have last := middle.unify right
  apply eqOfParts
  · rw [headUnify first right, headUnify left last, headUnify left middle, headUnify middle right, Head.joinAssoc]
  · rw [primitiveUnify first right, primitiveUnify left last, primitiveUnify left middle,
      primitiveUnify middle right, headUnify left middle, headUnify middle right, Head.joinAssoc]
    cases number : (s.head.join (t.head.join u.head)).isNumber with
    | false => rw [Bool.and_false, Bool.and_false]
    | true =>
      have numbers := Head.numbersOfJoin number
      rw [← Head.joinAssoc] at number
      have numbers' := Head.numbersOfJoin number
      rw [numbers.2, numbers'.1, Bool.and_true, Bool.and_true, Bool.and_true, Bool.and_true, Bool.and_assoc]
  · rw [nullUnify first right, nullUnify left last, nullUnify left middle, nullUnify middle right, Bool.or_assoc]
  · rw [innerUnify first right, innerUnify left last, innerUnify left middle, innerUnify middle right,
      headUnify left middle, headUnify middle right]
    -- only three types of one head are over anything together
    by_cases same : s.head = t.head
    · by_cases same' : t.head = u.head
      · rw [if_pos same, if_pos same', same, same', Head.joinSelf, if_pos rfl, if_pos rfl]
        exact zipAssoc fun e inside d inside' c inside'' =>
          unifyAssoc (left.inner e inside) (middle.inner d inside') (right.inner c inside'')
      · rw [if_pos same, if_neg same', same, Head.joinSelf, if_neg same', List.zipWith_nil_right, ite_self]
    · by_cases same' : t.head = u.head
      · rw [if_neg same, if_pos same', ← same', Head.joinSelf, if_neg same, List.zipWith_nil_left, ite_self]
      · rw [if_neg same, if_neg same', List.zipWith_nil_left, List.zipWith_nil_right, ite_self, ite_self]
termination_by sizeOf s
decreasing_by exact innerSize inside

theorem Within.unifyOrAny {ts : List Ty} (all : ∀ t ∈ ts, Within N t) : Within N (unifyOrAny ts) := by
  cases ts with
  | nil => exact ⟨.atom, nofun⟩
  | cons t ts =>
    rw [List.forall_mem_cons] at all
    obtain ⟨first, rest⟩ := all
    show Within N (ts.foldl Ty.unify t)
    induction ts generalizing t with
    | nil => exact first
    | cons t' ts ih =>
      rw [List.forall_mem_cons] at rest
      exact ih (Ty.unify t t') (first.unify rest.1) rest.2

theorem foldlAbove {t x : Ty} {ts : List Ty} (first : Within N t) (rest : ∀ t ∈ ts, Within N t) (isX : Within N x)
    (below : unify x t = t ∨ x ∈ ts) : unify x (ts.foldl unify t) = ts.foldl unify t := by
  induction ts generalizing t with
  | nil => exact below.resolve_right List.not_mem_nil
  | cons t' ts ih =>
    rw [List.forall_mem_cons] at rest
    apply ih (first.unify rest.1) rest.2
    obtain below | inside := below
    · exact .inl (by rw [← unifyAssoc isX first rest.1, below])
    · obtain rfl | inside := List.mem_cons.1 inside
      · exact .inl (by rw [unifyComm first isX, ← unifyAssoc isX isX first, unifySelf isX])
      · exact .inr inside

theorem foldlBelow {t u : Ty} {ts : List Ty} (first : Within N t) (rest : ∀ t ∈ ts, Within N t) (isU : Within N u)
    (below : unify t u = u) (all : ∀ t ∈ ts, unify t u = u) : unify (ts.foldl unify t) u = u := by
  induction ts generalizing t with
  | nil => exact below
  | cons t' ts ih =>
    rw [List.forall_mem_cons] at rest all
    apply ih (first.unify rest.1) rest.2 _ all.2
    rw [unifyAssoc first rest.1 isU, all.1, below]

theorem unifyAbove {x : Ty} {ts : List Ty} (all : ∀ t ∈ ts, Within N t) (inside : x ∈ ts) :
    unify x (unifyOrAny ts) = unifyOrAny ts := by
  cases ts with
  | nil => contradiction
  | cons t ts =>
    have isX := all x inside
    rw [List.forall_mem_cons] at all
    apply foldlAbove all.1 all.2 isX
    obtain rfl | inside := List.mem_cons.1 inside
    · exact .inl (unifySelf isX)
    · exact .inr inside

theorem unifyBelow {u : Ty} {ts : List Ty} (some : ts ≠ []) (all : ∀ t ∈ ts, Within N t) (isU : Within N u)
    (below : ∀ t ∈ ts, unify t u = u) : unify (unifyOrAny ts) u = u := by
  cases ts with
  | nil => contradiction
  | cons t ts =>
    rw [List.forall_mem_cons] at all below
    exact foldlBelow all.1 all.2 isU below.1 below.2

theorem unifyAntisymm {s t : Ty} (left : Within N s) (right : Within N t) (below : unify s t = t)
    (above : unify t s = s) : s = t := by
  rw [← above, unifyComm right left, below]

theorem membersUnify {xs ys : List Ty} (some : xs ≠ []) (all : ∀ t ∈ xs, Within N t) (same : ∀ t, t ∈ xs ↔ t ∈ ys) :
    unifyOrAny xs = unifyOrAny ys := by
  have all' : ∀ t ∈ ys, Within N t := fun t inside => all t ((same t).2 inside)
  have some' : ys ≠ [] := by
    obtain ⟨x, inside⟩ := List.exists_mem_of_ne_nil xs some
    exact List.ne_nil_of_mem ((same x).1 inside)
  have left := Within.unifyOrAny all
  have right := Within.unifyOrAny all'
  apply unifyAntisymm left right
  · exact unifyBelow some all right fun t inside => unifyAbove all' ((same t).1 inside)
  · exact unifyBelow some' all' left fun t inside => unifyAbove all ((same t).2 inside)

theorem groupsUnify {groups : List (List Ty)} (some : groups ≠ []) (each : ∀ g ∈ groups, g ≠ [])
    (all : ∀ g ∈ groups, ∀ t ∈ g, Within N t) :
    unifyOrAny groups.flatten = unifyOrAny (groups.map unifyOrAny) := by
  have flat : ∀ t ∈ groups.flatten, Within N t := by
    intro t inside
    obtain ⟨g, isGroup, inside⟩ := List.mem_flatten.1 inside
    exact all g isGroup t inside
  have whole : ∀ t ∈ groups.map unifyOrAny, Within N t := by
    intro t inside
    obtain ⟨g, isGroup, rfl⟩ := List.mem_map.1 inside
    exact Within.unifyOrAny (all g isGroup)
  have left := Within.unifyOrAny flat
  have right := Within.unifyOrAny whole
  obtain ⟨first, isFirst⟩ := List.exists_mem_of_ne_nil groups some
  obtain ⟨member, isMember⟩ := List.exists_mem_of_ne_nil first (each first isFirst)
  apply unifyAntisymm left right
  · apply unifyBelow (List.ne_nil_of_mem (List.mem_flatten.2 ⟨first, isFirst, isMember⟩)) flat right
    intro t inside
    obtain ⟨g, isGroup, inside⟩ := List.mem_flatten.1 inside
    have common := Within.unifyOrAny (all g isGroup)
    have below := unifyAbove whole (List.mem_map.2 ⟨g, isGroup, rfl⟩)
    rw [← below, ← unifyAssoc (all g isGroup t inside) common right, unifyAbove (all g isGroup) inside]
  · apply unifyBelow (by simpa using some) whole left
    intro t inside
    obtain ⟨g, isGroup, rfl⟩ := List.mem_map.1 inside
    apply unifyBelow (each g isGroup) (all g isGroup) left
    intro t inside
    exact unifyAbove flat (List.mem_flatten.2 ⟨g, isGroup, inside⟩)

/-- Types as they are made, among which a name stands for one struct, enum or host type, and for no class of the library
or of arrays. -/
structure Coherent (S : Set Ty) : Prop where
  made : ∀ t ∈ S, t.Made
  one : ∀ s ∈ S, ∀ t ∈ S, ∀ x ∈ s.nominal, ∀ y ∈ t.nominal, x.1 = y.1 → x.2 = y.2
  apart : ∀ t ∈ S, ∀ x ∈ t.nominal, x.1 ∉ libraryClasses ∧ x.1.startsWith "[" = false

def Coherent.naming {S : Set Ty} (coherent : Coherent S) : Naming where
  stands name t := ∃ s ∈ S, (name, t) ∈ s.nominal
  one := by
    rintro name s t ⟨a, isA, inA⟩ ⟨b, isB, inB⟩
    exact coherent.one a isA b isB _ inA _ inB rfl
  apart := by
    rintro name t ⟨a, isA, inA⟩
    exact coherent.apart a isA _ inA

theorem Coherent.within {S : Set Ty} (coherent : Coherent S) {t : Ty} (inside : t ∈ S) : Within coherent.naming t :=
  ⟨coherent.made t inside, fun _ isName => ⟨t, inside, isName⟩⟩

theorem unifyAllSome {ts : List Ty} (some : ts ≠ []) : unifyAll ts = .ok (unifyOrAny ts) := by
  cases ts with
  | nil => contradiction
  | cons t ts => rfl

theorem unifyGroups {groups : List (List Ty)} (each : ∀ g ∈ groups, g ≠ []) :
    groups.mapM unifyAll = .ok (groups.map unifyOrAny) := by
  induction groups with
  | nil => rfl
  | cons g groups ih =>
    rw [List.forall_mem_cons] at each
    rw [List.mapM_cons, unifyAllSome each.1, ih each.2]
    rfl

/-- The common type is a join, and that of a list is the join of its members. -/
theorem unifyIsJoin {S : Set Ty} (coherent : Coherent S) :
    (∀ s ∈ S, unify s s = s) ∧
    (∀ s ∈ S, ∀ t ∈ S, unify s t = unify t s) ∧
    (∀ s ∈ S, ∀ t ∈ S, ∀ u ∈ S, unify (unify s t) u = unify s (unify t u)) ∧
    (∀ xs ys : List Ty, xs ≠ [] → (∀ t ∈ xs, t ∈ S) → (∀ t, t ∈ xs ↔ t ∈ ys) → unifyAll xs = unifyAll ys) ∧
    ∀ groups : List (List Ty), groups ≠ [] → (∀ g ∈ groups, g ≠ [] ∧ ∀ t ∈ g, t ∈ S) →
      unifyAll groups.flatten = groups.mapM unifyAll >>= unifyAll := by
  refine ⟨?self, ?comm, ?assoc, ?members, ?groups⟩
  case self => exact fun s isS => unifySelf (coherent.within isS)
  case comm => exact fun s isS t isT => unifyComm (coherent.within isS) (coherent.within isT)
  case assoc =>
    exact fun s isS t isT u isU => unifyAssoc (coherent.within isS) (coherent.within isT) (coherent.within isU)
  case members =>
    intro xs ys some all same
    obtain ⟨x, inside⟩ := List.exists_mem_of_ne_nil xs some
    have some' : ys ≠ [] := List.ne_nil_of_mem ((same x).1 inside)
    rw [unifyAllSome some, unifyAllSome some', membersUnify some (fun t inside => coherent.within (all t inside)) same]
  case groups =>
    intro groups some all
    have each : ∀ g ∈ groups, g ≠ [] := fun g inside => (all g inside).1
    obtain ⟨g, isGroup⟩ := List.exists_mem_of_ne_nil groups some
    obtain ⟨t, inside⟩ := List.exists_mem_of_ne_nil g (each g isGroup)
    have flat : groups.flatten ≠ [] := List.ne_nil_of_mem (List.mem_flatten.2 ⟨g, isGroup, inside⟩)
    have some' : groups.map unifyOrAny ≠ [] := by simpa using some
    rw [unifyAllSome flat, unifyGroups each,
      groupsUnify some each fun g isGroup t inside => coherent.within ((all g isGroup).2 t inside)]
    exact (unifyAllSome some').symm

/-- Lists of a struct that admits null and of one that does not, and two types apart from them. -/
def shapes : List Ty :=
  [list (.struct true "point" [("x", int32)]), (list (.struct false "point" [("x", int32)])).nonNull,
    array int64, enumeration "color" ["red"]]

theorem shapesCoherent : Coherent {t | t ∈ shapes} where
  made := by
    intro t inside
    change t ∈ shapes at inside
    simp only [shapes, List.mem_cons, List.not_mem_nil, or_false] at inside
    obtain rfl | rfl | rfl | rfl := inside
    · exact .carrier .struct rfl
    · exact .carrier .struct rfl
    · exact .carrier .atom rfl
    · exact .atom
  one := by
    have one : ∀ s ∈ shapes, ∀ t ∈ shapes, ∀ x ∈ s.nominal, ∀ y ∈ t.nominal, x.1 = y.1 → x.2 = y.2 := by decide
    exact one
  apart := by
    have apart : ∀ t ∈ shapes, ∀ x ∈ t.nominal, x.1 ∉ libraryClasses ∧ x.1.startsWith "[" = false := by
      simp [shapes, nominal, list, array, enumeration, nonNull, withNull, boxed, int64, libraryClasses, Prim.all,
        Prim.boxClass, boxedOf]
    exact apart

theorem shapesJoin : Coherent {t | t ∈ shapes} ∧ unifyAll shapes = unifyAll shapes.reverse :=
  ⟨shapesCoherent, (unifyIsJoin shapesCoherent).2.2.2.1 shapes shapes.reverse nofun (fun _ => id)
    fun _ => List.mem_reverse.symm⟩

end QueryMachine.Ty
