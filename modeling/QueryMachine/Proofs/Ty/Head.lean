import QueryMachine.Proofs.Ty.Regular

/-! What two types must have in common to meet below `any`, and how they then meet. A type is its head, whether it is
primitive, whether it admits null, and the types it is over. Where a name stands for two types, or for a class of the
library, types with one representation need not have one head. -/
namespace QueryMachine

def Prim.common? (p q : Prim) : Option Prim :=
  if p = .boolean ∨ q = .boolean then if p = q then some p else none
  else if p.isInteger = q.isInteger then if p.kind.rank < q.kind.rank then some q else some p
  else some .float64

theorem Prim.commonSelf (p : Prim) : p.common? p = some p := by
  cases p <;> rfl

theorem Prim.commonComm (p q : Prim) : p.common? q = q.common? p := by
  cases p <;> cases q <;> rfl

theorem Prim.commonAssoc (p q r : Prim) :
    (p.common? q).bind (·.common? r) = (q.common? r).bind p.common? := by
  cases p <;> cases q <;> cases r <;> rfl

namespace Ty

inductive Head where
  | void
  | number (p : Prim)
  | plain (a : Atom)
  | array (elem : Head)
  | carrier (c : Carrier)
  | map
  | struct (name : String) (fields : List (String × Ty))
  | host (name : String) (properties : List (String × Ty)) (comparable : Bool)
  deriving DecidableEq

def head : Ty → Head
  | .void => .void
  | .prim p => .number p
  | .atom _ (.boxed p) => .number p
  | .atom _ a => .plain a
  | .carrier _ .array t => .array t.head
  | .carrier _ c _ => .carrier c
  | .map .. => .map
  | .struct _ name fields => .struct name fields
  | .host _ name properties comparable => .host name properties comparable

def inner : Ty → List Ty
  | .carrier _ _ t => [t]
  | .map _ k v => [k, v]
  | _ => []

namespace Head

def isNumber : Head → Bool
  | .number _ => true
  | _ => false

def join (h k : Head) : Head :=
  match h, k with
  | .number p, .number q => ((p.common? q).map .number).getD (.plain .any)
  | h, k => if h = k then h else .plain .any

theorem joinNumbers (p q : Prim) :
    join (.number p) (.number q) = ((p.common? q).map .number).getD (.plain .any) := rfl

theorem joinOthers {h k : Head} (other : (h.isNumber && k.isNumber) = false) :
    h.join k = if h = k then h else .plain .any := by
  cases h <;> cases k <;> first | rfl | contradiction

theorem joinSelf (h : Head) : h.join h = h := by
  cases h with
  | number p => rw [joinNumbers, Prim.commonSelf]; rfl
  | _ => simp [join]

theorem joinComm (h k : Head) : h.join k = k.join h := by
  by_cases other : (h.isNumber && k.isNumber) = false
  · have other' : (k.isNumber && h.isNumber) = false := Bool.and_comm .. ▸ other
    rw [joinOthers other, joinOthers other']
    by_cases same : h = k
    · rw [same]
    · rw [if_neg same, if_neg (Ne.symm same)]
  · cases h <;> cases k <;> first | contradiction | rw [joinNumbers, joinNumbers, Prim.commonComm]

theorem anyJoin (h : Head) : join (.plain .any) h = .plain .any := by
  rw [joinOthers rfl]
  split <;> rfl

theorem joinNumber {h k : Head} (numbers : (h.isNumber && k.isNumber) = true) :
    h.join k = .plain .any ∨ (h.join k).isNumber = true := by
  cases h <;> cases k <;> try contradiction
  next p q =>
    rw [joinNumbers]
    cases p.common? q with
    | none => exact .inl rfl
    | some r => exact .inr rfl

theorem numbersOfJoin {h k : Head} (number : (h.join k).isNumber = true) : h.isNumber = true ∧ k.isNumber = true := by
  by_cases other : (h.isNumber && k.isNumber) = false
  · rw [joinOthers other] at number
    split at number
    · next same =>
      subst same
      exact ⟨number, number⟩
    · contradiction
  · simpa using other

theorem joinThree {h k l : Head} (other : (h.isNumber && k.isNumber && l.isNumber) = false) :
    (h.join k).join l = if h = k ∧ k = l then h else .plain .any := by
  by_cases numbers : (h.isNumber && k.isNumber) = true
  · have notNumber : l.isNumber = false := by simpa [numbers] using other
    have apart : ¬ (h = k ∧ k = l) := by
      rintro ⟨rfl, rfl⟩
      simp [notNumber] at numbers
    rw [if_neg apart]
    obtain lost | number := joinNumber numbers
    · rw [lost, anyJoin]
    · have differ : h.join k ≠ l := fun same => by simp [same, notNumber] at number
      rw [joinOthers (by simp [notNumber]), if_neg differ]
  · have plain : (h.isNumber && k.isNumber) = false := by simpa using numbers
    rw [joinOthers plain]
    by_cases same : h = k
    · subst same
      have notNumber : h.isNumber = false := by simpa using plain
      rw [if_pos rfl, joinOthers (by simp [notNumber])]
      simp
    · rw [if_neg same, anyJoin, if_neg fun all => same all.1]

theorem joinAssoc (h k l : Head) : (h.join k).join l = h.join (k.join l) := by
  by_cases other : (h.isNumber && k.isNumber && l.isNumber) = false
  · have other' : (l.isNumber && k.isNumber && h.isNumber) = false := by
      rw [← other]
      cases h.isNumber <;> cases k.isNumber <;> cases l.isNumber <;> rfl
    rw [joinThree other, joinComm h, joinComm k, joinThree other']
    by_cases all : h = k ∧ k = l
    · rw [if_pos all, if_pos ⟨all.2.symm, all.1.symm⟩, all.1, all.2]
    · rw [if_neg all, if_neg fun all' => all ⟨all'.2.symm, all'.1.symm⟩]
  · cases h <;> cases k <;> cases l <;> try contradiction
    next p q r =>
      have assoc := Prim.commonAssoc p q r
      rw [joinNumbers p q, joinNumbers q r]
      cases left : p.common? q with
      | none =>
        cases right : q.common? r with
        | none => rfl
        | some right' =>
          simp only [left, right, Option.bind_none, Option.bind_some] at assoc
          simp [joinNumbers, ← assoc, anyJoin]
      | some left' =>
        cases right : q.common? r with
        | none =>
          simp only [left, right, Option.bind_none, Option.bind_some] at assoc
          simp [joinNumbers, assoc, joinOthers, isNumber]
        | some right' =>
          simp only [left, right, Option.bind_some] at assoc
          simp [joinNumbers, assoc]

end Head

def assemble (h : Head) (primitive null : Bool) (inner : List Ty) : Ty :=
  match h, inner with
  | .number p, _ => if primitive then .prim p else .atom null (.boxed p)
  | .plain a, _ => .atom null a
  | .array _, [t] => .carrier null .array t
  | .carrier c, [t] => .carrier null c t
  | .map, [k, v] => .map null k v
  | .struct name fields, _ => .struct null name fields
  | .host name properties comparable, _ => .host null name properties comparable
  | _, _ => .void

theorem assembleSelf (t : Ty) : assemble t.head t.isPrimitive t.isNullable t.inner = t := by
  cases t with
  | atom n a => cases a <;> rfl
  | carrier n c t => cases c <;> rfl
  | _ => rfl

/-- Types as they are made: elements are held as references. -/
inductive Made : Ty → Prop
  | void : Made .void
  | prim {p : Prim} : Made (.prim p)
  | atom {n : Bool} {a : Atom} : Made (.atom n a)
  | carrier {n : Bool} {c : Carrier} {t : Ty} : Made t → t.isPrimitive = false → Made (.carrier n c t)
  | map {n : Bool} {k v : Ty} : Made k → k.isPrimitive = false → Made v → v.isPrimitive = false → Made (.map n k v)
  | struct {n : Bool} {name : String} {fields : List (String × Ty)} : Made (.struct n name fields)
  | host {n : Bool} {name : String} {properties : List (String × Ty)} {comparable : Bool} :
    Made (.host n name properties comparable)

def nominal : Ty → List (String × Ty)
  | .atom _ (.enum name variants) => [(name, .atom false (.enum name variants))]
  | .carrier _ _ t => t.nominal
  | .map _ k v => k.nominal ++ v.nominal
  | .struct _ name fields => [(name, .struct false name fields)]
  | .host _ name properties comparable => [(name, .host false name properties comparable)]
  | _ => []

def libraryClasses : List String :=
  Prim.all.map Prim.boxClass ++
    ["Object", "String", "Bytes", "Timestamp", "Record", "Timeout", "Fault", "List", "Promise", "Outcome", "Map"]

structure Naming where
  stands : String → Ty → Prop
  one {name : String} {s t : Ty} : stands name s → stands name t → s = t
  apart {name : String} {t : Ty} : stands name t → name ∉ libraryClasses ∧ name.startsWith "[" = false

structure Within (N : Naming) (t : Ty) : Prop where
  made : t.Made
  named : ∀ x ∈ t.nominal, N.stands x.1 x.2

def classHead (cls : String) : Head :=
  match Prim.ofBoxClass? cls with
  | some p => .number p
  | none => match cls with
    | "String" => .plain .string
    | "Bytes" => .plain .bytes
    | "Timestamp" => .plain .timestamp
    | "Record" => .plain .record
    | "Timeout" => .plain .timeout
    | "Fault" => .plain .throwable
    | "List" => .carrier .list
    | "Promise" => .carrier .promise
    | "Outcome" => .carrier .result
    | "Map" => .map
    | _ => .plain .any

variable {N : Naming}

theorem libraryNoArray : ∀ cls ∈ libraryClasses, cls.startsWith "[" = false := by
  simp [libraryClasses, Prim.all, Prim.boxClass]

theorem voidDescriptor (c : String) : (Rep.ref c).descriptor ≠ Rep.void.descriptor := by
  intro same
  simp only [Rep.descriptor] at same
  split at same
  · subst same
    simp_all
  · have letters := congrArg String.toList same
    simp at letters

theorem descriptorInj {r q : Rep} (left : r.isPrimitive = false) (right : q.isPrimitive = false)
    (same : r.descriptor = q.descriptor) : r = q := by
  cases r with
  | prim p => contradiction
  | void =>
    cases q with
    | void => rfl
    | prim p => contradiction
    | ref d => exact absurd same.symm (voidDescriptor d)
  | ref c =>
    cases q with
    | prim p => contradiction
    | void => exact absurd same (voidDescriptor c)
    | ref d =>
      simp only [Rep.descriptor] at same
      split at same <;> split at same
      · rw [same]
      · subst same; simp_all
      · subst same; simp_all
      · simpa using same

theorem repCases {t : Ty} (within : Within N t) (reference : t.isPrimitive = false) :
    t = .void ∨ (∃ cls ∈ libraryClasses, t.rep = .ref cls ∧ t.head = classHead cls) ∨
      (∃ n e, t = .carrier n .array e) ∨ ∃ name, t.rep = .ref name ∧ N.stands name t.nonNull := by
  cases t with
  | void => exact .inl rfl
  | prim p => contradiction
  | atom n a =>
    cases a with
    | enum name variants => exact .inr (.inr (.inr ⟨name, rfl, within.named _ (.head _)⟩))
    | boxed p => cases p <;> exact .inr (.inl ⟨_, by simp [libraryClasses, Prim.all, Prim.boxClass], rfl, rfl⟩)
    | _ => exact .inr (.inl ⟨_, by simp [libraryClasses, Prim.all, Prim.boxClass], rfl, rfl⟩)
  | carrier n c t =>
    cases c with
    | array => exact .inr (.inr (.inl ⟨n, t, rfl⟩))
    | _ => exact .inr (.inl ⟨_, by simp [libraryClasses, Prim.all, Prim.boxClass], rfl, rfl⟩)
  | map n k v => exact .inr (.inl ⟨_, by simp [libraryClasses, Prim.all, Prim.boxClass], rfl, rfl⟩)
  | struct n name fields => exact .inr (.inr (.inr ⟨name, rfl, within.named _ (.head _)⟩))
  | host n name properties comparable => exact .inr (.inr (.inr ⟨name, rfl, within.named _ (.head _)⟩))

theorem repReference {t : Ty} (reference : t.isPrimitive = false) : t.rep.isPrimitive = false := by
  cases t with
  | prim p => contradiction
  | atom n a => cases a <;> rfl
  | carrier n c t => cases c <;> rfl
  | _ => rfl

theorem headWithNull (n : Bool) (t : Ty) : (t.withNull n).head = t.head := by
  cases t with
  | atom n a => cases a <;> rfl
  | carrier n c t => cases c <;> rfl
  | _ => rfl

theorem headBoxed (t : Ty) : t.boxed.head = t.head := by
  cases t <;> rfl

theorem Within.element {n : Bool} {c : Carrier} {e : Ty} (within : Within N (.carrier n c e)) :
    Within N e ∧ e.isPrimitive = false := by
  obtain ⟨made, named⟩ := within
  cases made with
  | carrier made reference => exact ⟨⟨made, named⟩, reference⟩

theorem Within.sides {n : Bool} {k v : Ty} (within : Within N (.map n k v)) :
    (Within N k ∧ k.isPrimitive = false) ∧ Within N v ∧ v.isPrimitive = false := by
  obtain ⟨made, named⟩ := within
  cases made with
  | map key isKey value isValue =>
    have left : ∀ x ∈ k.nominal, N.stands x.1 x.2 := fun x mem => named x (List.mem_append_left _ mem)
    have right : ∀ x ∈ v.nominal, N.stands x.1 x.2 := fun x mem => named x (List.mem_append_right _ mem)
    exact ⟨⟨⟨key, left⟩, isKey⟩, ⟨value, right⟩, isValue⟩

theorem nominalHead {name : String} {s t : Ty} (left : N.stands name s.nonNull) (right : N.stands name t.nonNull) :
    s.head = t.head := by
  rw [← headWithNull false s, ← headWithNull false t]
  exact congrArg head (N.one left right)

theorem headOrArrays {s t : Ty} (left : Within N s) (right : Within N t) (isLeft : s.isPrimitive = false)
    (isRight : t.isPrimitive = false) (same : s.rep = t.rep) :
    s.head = t.head ∨ ∃ m e n d, s = .carrier m .array e ∧ t = .carrier n .array d := by
  obtain rfl | ⟨cls, library, isCls, head⟩ | ⟨m, e, rfl⟩ | ⟨name, isName, stands⟩ := repCases left isLeft
  · obtain rfl | ⟨cls', _, isCls', _⟩ | ⟨n, d, rfl⟩ | ⟨name', isName', _⟩ := repCases right isRight
    · exact .inl rfl
    · rw [isCls'] at same; cases same
    · cases same
    · rw [isName'] at same; cases same
  · obtain rfl | ⟨cls', _, isCls', head'⟩ | ⟨n, d, rfl⟩ | ⟨name', isName', stands'⟩ := repCases right isRight
    · rw [isCls] at same; cases same
    · rw [isCls, isCls'] at same
      cases same
      exact .inl (head.trans head'.symm)
    · rw [isCls] at same
      cases same
      exact absurd (libraryNoArray _ library) (by simp)
    · rw [isCls, isName'] at same
      cases same
      exact absurd library (N.apart stands').1
  · obtain rfl | ⟨cls', library', isCls', _⟩ | ⟨n, d, rfl⟩ | ⟨name', isName', stands'⟩ := repCases right isRight
    · cases same
    · rw [isCls'] at same
      cases same
      exact absurd (libraryNoArray _ library') (by simp)
    · exact .inr ⟨m, e, n, d, rfl, rfl⟩
    · rw [isName'] at same
      cases same
      exact absurd (N.apart stands').2 (by simp)
  · obtain rfl | ⟨cls', library', isCls', _⟩ | ⟨n, d, rfl⟩ | ⟨name', isName', stands'⟩ := repCases right isRight
    · rw [isName] at same; cases same
    · rw [isName, isCls'] at same
      cases same
      exact absurd library' (N.apart stands).1
    · rw [isName] at same
      cases same
      exact absurd (N.apart stands).2 (by simp)
    · rw [isName, isName'] at same
      cases same
      exact .inl (nominalHead stands stands')

theorem headOfRep {s t : Ty} (left : Within N s) (right : Within N t) (isLeft : s.isPrimitive = false)
    (isRight : t.isPrimitive = false) (same : s.rep = t.rep) : s.head = t.head := by
  obtain alike | ⟨m, e, n, d, rfl, rfl⟩ := headOrArrays left right isLeft isRight same
  · exact alike
  · obtain ⟨element, isElement⟩ := left.element
    obtain ⟨element', isElement'⟩ := right.element
    have spelled : e.rep.descriptor = d.rep.descriptor := by simpa [rep] using same
    have elements := descriptorInj (repReference isElement) (repReference isElement') spelled
    exact congrArg Head.array (headOfRep element element' isElement isElement' elements)
termination_by sizeOf s

def Head.rep : Head → Rep
  | .void => .void
  | .number p => .ref p.boxClass
  | .plain a => (Ty.atom true a).rep
  | .array h => .ref ("[" ++ h.rep.descriptor)
  | .carrier c => (Ty.carrier true c .void).rep
  | .map => .ref "Map"
  | .struct name _ => .ref name
  | .host name _ _ => .ref name

theorem Made.headRep {t : Ty} (made : t.Made) (reference : t.isPrimitive = false) : t.head.rep = t.rep := by
  induction made with
  | prim => contradiction
  | @atom n a => cases a <;> rfl
  | @carrier n c e _ isElement ih =>
    cases c with
    | array => simp only [head, Head.rep, rep, ih isElement]
    | _ => rfl
  | _ => rfl

theorem kindOther {t : Ty} (other : t.head.isNumber = false) :
    t.kind.isInteger = false ∧ t.kind.isFloat = false ∧ t.kind ≠ .boolean := by
  cases t with
  | prim p => contradiction
  | atom n a => cases a <;> first | contradiction | exact ⟨rfl, rfl, nofun⟩
  | carrier n c t => cases c <;> exact ⟨rfl, rfl, nofun⟩
  | _ => exact ⟨rfl, rfl, nofun⟩

theorem joinOthers {parts s t : Ty} (other : (s.head.isNumber && t.head.isNumber) = false) :
    join parts s t =
      if s.kind = .any ∨ t.kind = .any then any
      else if s.rep = t.rep then if s.kind.isComposite then parts else s else any := by
  have kinds : (s.kind.isInteger && t.kind.isInteger) = false ∧ (s.kind.isFloat && t.kind.isFloat) = false ∧
      (s.kind.isNumeric && t.kind.isNumeric) = false ∧ ¬ (s.kind = .boolean ∧ t.kind = .boolean) := by
    rw [Bool.and_eq_false_iff] at other
    obtain other | other := other
    · obtain ⟨integer, float, boolean⟩ := kindOther other
      simp [Kind.isNumeric, integer, float, boolean]
    · obtain ⟨integer, float, boolean⟩ := kindOther other
      simp [Kind.isNumeric, integer, float, boolean]
  obtain ⟨integers, floats, numbers, booleans⟩ := kinds
  simp only [join, integers, floats, numbers, if_neg booleans, Bool.or_self, Bool.false_eq_true, if_false]

theorem Within.boxed {t : Ty} (within : Within N t) : Within N t.boxed := by
  cases t with
  | prim p => exact ⟨.atom, nofun⟩
  | _ => exact within

theorem numberForm {t : Ty} {p : Prim} (number : t.head = .number p) :
    t = .prim p ∨ t = .atom t.isNullable (.boxed p) := by
  have whole := assembleSelf t
  rw [number] at whole
  simp only [assemble] at whole
  split at whole
  · exact .inl whole.symm
  · exact .inr whole.symm

inductive Meets : Ty → Ty → Ty → Prop
  | number {s t : Ty} {p q r : Prim} : s.head = .number p → t.head = .number q → p.common? q = some r →
    Meets s t (if s.isPrimitive && t.isPrimitive then .prim r else .atom (s.isNullable || t.isNullable) (.boxed r))
  | void : Meets .void .void .void
  | atom {m n : Bool} {a : Atom} : head (.atom m a) = .plain a → Meets (.atom m a) (.atom n a) (.atom (m || n) a)
  | carrier {m n : Bool} {c : Carrier} {e d : Ty} : (c = .array → e.head = d.head) →
    Meets (.carrier m c e) (.carrier n c d) (.carrier (m || n) c (unify e d))
  | map {m n : Bool} {k v l w : Ty} : Meets (.map m k v) (.map n l w) (.map (m || n) (unify k l) (unify v w))
  | struct {m n : Bool} {name : String} {fields : List (String × Ty)} :
    Meets (.struct m name fields) (.struct n name fields) (.struct (m || n) name fields)
  | host {m n : Bool} {name : String} {properties : List (String × Ty)} {comparable : Bool} :
    Meets (.host m name properties comparable) (.host n name properties comparable)
      (.host (m || n) name properties comparable)
  | apart {s t : Ty} : s.head ≠ t.head → s.head.join t.head = .plain .any →
    Meets s t (.atom (s.isNullable || t.isNullable) .any)

theorem meetsNumbers {s t : Ty} {p q : Prim} (left : s.head = .number p) (right : t.head = .number q) :
    Meets s t (unify s t) := by
  cases common : p.common? q with
  | none =>
    have lost : s.head.join t.head = .plain .any := by rw [left, right, Head.joinNumbers, common]; rfl
    have differ : s.head ≠ t.head := by
      intro same
      rw [same, Head.joinSelf, right] at lost
      contradiction
    have whole : unify s t = .atom (s.isNullable || t.isNullable) .any := by
      obtain isLeft | isLeft := numberForm left <;> obtain isRight | isRight := numberForm right <;>
        rw [isLeft, isRight] <;> cases p <;> cases q <;> first | rfl | contradiction
    exact whole ▸ .apart differ lost
  | some r =>
    have whole : unify s t =
        if s.isPrimitive && t.isPrimitive then .prim r else .atom (s.isNullable || t.isNullable) (.boxed r) := by
      obtain isLeft | isLeft := numberForm left <;> obtain isRight | isRight := numberForm right <;>
        rw [isLeft, isRight] <;> cases p <;> cases q <;> cases common <;> rfl
    exact whole ▸ .number left right common

theorem unifyBoxes {s t : Ty} (other : (s.head.isNumber && t.head.isNumber) = false) :
    unify s t = (join (parts s t) s.boxed t.boxed).withNull (s.isNullable || t.isNullable) := by
  have notBoth : (s.isPrimitive && t.isPrimitive) = false := by
    cases s <;> cases t <;> first | rfl | contradiction
  rw [unifyIs, notBoth]
  rfl

theorem boxedSelf {t : Ty} (reference : t.isPrimitive = false) : t.boxed = t := by
  cases t with
  | prim p => contradiction
  | _ => rfl

theorem Made.unifySelf {t : Ty} (made : t.Made) : unify t t = t := by
  induction made with
  | void => rfl
  | @prim p => cases p <;> rfl
  | @atom n a =>
    rw [unifyIs]
    cases a with
    | boxed p => cases p <;> cases n <;> rfl
    | enum name variants => cases n <;> simp [isPrimitive, boxed, join, kind, rep, Kind.isInteger, Kind.isFloat,
        Kind.isNumeric, Kind.isComposite, isNullable, withNull]
    | _ => cases n <;> rfl
  | @carrier n c t _ reference ih =>
    have whole : parts (.carrier n c t) (.carrier n c t) = .carrier true c t := by
      simp [parts, ih, boxedSelf reference]
    rw [unifyIs, whole]
    cases c <;> cases n <;> simp [isPrimitive, boxed, join, kind, Kind.isInteger, Kind.isFloat, Kind.isNumeric,
      Kind.isComposite, isNullable, withNull]
  | @map n k v _ key _ value ihk ihv =>
    have whole : parts (.map n k v) (.map n k v) = .map true k v := by
      simp [parts, ihk, ihv, boxedSelf key, boxedSelf value]
    rw [unifyIs, whole]
    cases n <;> simp [isPrimitive, boxed, join, kind, Kind.isInteger, Kind.isFloat, Kind.isNumeric, Kind.isComposite,
      isNullable, withNull]
  | @struct n name fields =>
    rw [unifyIs]
    cases n <;> simp [isPrimitive, boxed, join, parts, kind, Kind.isInteger, Kind.isFloat,
      Kind.isNumeric, Kind.isComposite, isNullable, withNull]
  | @host n name properties comparable =>
    rw [unifyIs]
    cases n <;> simp [isPrimitive, boxed, join, kind, Kind.isInteger, Kind.isFloat,
      Kind.isNumeric, Kind.isComposite, isNullable, withNull]

theorem Made.unifyAllSame {t : Ty} (made : t.Made) {ts : List Ty} (some : ts ≠ []) (same : ∀ u ∈ ts, u = t) :
    unifyAll ts = .ok t := by
  have fold : ∀ us : List Ty, (∀ u ∈ us, u = t) → us.foldl unify t = t := by
    intro us
    induction us with
    | nil => exact fun _ => rfl
    | cons u us ih =>
      intro same
      rw [List.foldl_cons, same u List.mem_cons_self, made.unifySelf]
      exact ih fun v inside => same v (List.mem_cons_of_mem u inside)
  cases ts with
  | nil => contradiction
  | cons u us =>
    rw [unifyAll, same u List.mem_cons_self, fold us fun v inside => same v (List.mem_cons_of_mem u inside)]

theorem meetsApart {s t : Ty} (left : Within N s) (right : Within N t) (apart : s.head ≠ t.head)
    (other : (s.head.isNumber && t.head.isNumber) = false) : Meets s t (unify s t) := by
  have noRep : s.boxed.rep ≠ t.boxed.rep := fun same => by
    have heads := headOfRep left.boxed right.boxed (boxedReference s) (boxedReference t) same
    rw [headBoxed, headBoxed] at heads
    exact apart heads
  have lost : s.head.join t.head = .plain .any := by rw [Head.joinOthers other, if_neg apart]
  have whole : unify s t = .atom (s.isNullable || t.isNullable) .any := by
    rw [unifyBoxes other, joinOthers (by rw [headBoxed, headBoxed, other]), if_neg noRep, ite_self]
    rfl
  exact whole ▸ .apart apart lost

theorem meetsAlike {s t : Ty} (left : Within N s) (right : Within N t) (same : s.head = t.head)
    (other : s.head.isNumber = false) : Meets s t (unify s t) := by
  have notBoth : (s.head.isNumber && t.head.isNumber) = false := by simp [other]
  have reps : s.boxed.rep = t.boxed.rep := by
    rw [← left.boxed.made.headRep (boxedReference s), ← right.boxed.made.headRep (boxedReference t), headBoxed,
      headBoxed, same]
  have whole : unify s t = (if s.boxed.kind = .any ∨ t.boxed.kind = .any then any
      else if s.boxed.kind.isComposite then parts s t else s.boxed).withNull (s.isNullable || t.isNullable) := by
    rw [unifyBoxes notBoth, joinOthers (by rw [headBoxed, headBoxed, notBoth]), if_pos reps]
  cases s with
  | prim p => contradiction
  | void => cases t with
    | void => exact .void
    | atom n a => cases a <;> contradiction
    | carrier n c t => cases c <;> contradiction
    | _ => contradiction
  | atom m a => cases t with
    | atom n b =>
      have plain : head (.atom m a) = .plain a := by cases a <;> first | rfl | contradiction
      have plain' : head (.atom n b) = .plain a := same ▸ plain
      have atoms := assembleSelf (.atom n b)
      rw [plain'] at atoms
      cases atoms
      have whole : unify (.atom m a) (.atom n a) = .atom (m || n) a := by
        rw [whole]
        cases a <;> first | rfl | contradiction
      exact whole ▸ .atom plain
    | carrier n c t => cases a <;> cases c <;> contradiction
    | _ => cases a <;> contradiction
  | carrier m c e => cases t with
    | carrier n d f =>
      have kinds : d = c := by cases c <;> cases d <;> simp_all [head]
      subst kinds
      have element := boxedSelf (unifyReference left.element.2 f)
      have whole : unify (.carrier m d e) (.carrier n d f) = .carrier (m || n) d (unify e f) := by
        rw [whole, boxedSelf (t := .carrier m d e) rfl, boxedSelf (t := .carrier n d f) rfl]
        cases d <;> simp [kind, Kind.isComposite, parts, element, withNull, isNullable]
      refine whole ▸ .carrier fun array => ?_
      subst array
      exact Head.array.inj same
    | atom n a => cases c <;> cases a <;> contradiction
    | _ => cases c <;> contradiction
  | map m k v => cases t with
    | map n l w =>
      have key := boxedSelf (unifyReference left.sides.1.2 l)
      have value := boxedSelf (unifyReference left.sides.2.2 w)
      have whole : unify (.map m k v) (.map n l w) = .map (m || n) (unify k l) (unify v w) := by
        rw [whole, boxedSelf (t := .map m k v) rfl, boxedSelf (t := .map n l w) rfl]
        simp [kind, Kind.isComposite, parts, key, value, withNull, isNullable]
      exact whole ▸ .map
    | atom n a => cases a <;> contradiction
    | carrier n c t => cases c <;> contradiction
    | _ => contradiction
  | struct m name fields => cases t with
    | struct n name' fields' =>
      cases same
      have whole : unify (.struct m name fields) (.struct n name fields) = .struct (m || n) name fields := by
        rw [whole]
        simp [boxed, kind, Kind.isComposite, parts, withNull, isNullable]
      exact whole ▸ .struct
    | atom n a => cases a <;> contradiction
    | carrier n c t => cases c <;> contradiction
    | _ => contradiction
  | host m name properties comparable => cases t with
    | host n name' properties' comparable' =>
      cases same
      exact whole ▸ .host
    | atom n a => cases a <;> contradiction
    | carrier n c t => cases c <;> contradiction
    | _ => contradiction

theorem unifyMeets {s t : Ty} (left : Within N s) (right : Within N t) : Meets s t (unify s t) := by
  by_cases other : (s.head.isNumber && t.head.isNumber) = false
  · by_cases same : s.head = t.head
    · exact meetsAlike left right same (by simpa [same] using other)
    · exact meetsApart left right same other
  · cases isLeft : s.head <;> cases isRight : t.head <;> simp [isLeft, isRight, Head.isNumber] at other
    exact meetsNumbers isLeft isRight

end Ty

end QueryMachine
