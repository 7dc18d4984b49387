import Mathlib.Data.List.Forall2
import QueryMachine.Proofs.Session
import QueryMachine.Proofs.Ty.Projection

/-! Resolution of value types after whatever was resolved before. What a session remembers projects to normal forms,
and one that is in normal form already to itself. -/
namespace QueryMachine

open Build (Ends)

structure ValueType.Normalises (t : ValueType) (type : Ty) : Prop where
  plain : type.Plain
  same : t.Canonical → type.valueType = t

namespace Session

structure Normal (s : Session) : Prop where
  types : ∀ c, ∀ p ∈ (s.types.context c).values, p.1.Normalises p.2
  structs : ∀ p ∈ s.structs, ∃ cls, p.2 = .struct false cls p.1

/-- Room for units of `n` more struct types. -/
structure Room (n : Nat) (s : Session) : Prop where
  unbuilt : s.built = false
  units : s.units.length + n ≤ s.config.maxUnits
  names : ∀ m, s.structCount ≤ m → s.contains (Struct.unitName m) = false

theorem newNormal (config : Config) (heap : Heap) : (Session.new config heap).Normal where
  types c p inside := by
    have empty : ((Session.new config heap).types.context c).values = [] := by
      cases c <;> rfl
    rw [empty] at inside
    contradiction
  structs := nofun

theorem Normal.keep {s s' : Session} (normal : s.Normal)
    (types : ∀ d, (s'.types.context d).values = (s.types.context d).values) (structs : s'.structs = s.structs) :
    s'.Normal where
  types c p inside := normal.types c p (types c ▸ inside)
  structs p inside := normal.structs p (structs ▸ inside)

theorem Normal.learn {s : Session} (normal : s.Normal) {c : ContextId} {t : ValueType} {type : Ty}
    (normalises : t.Normalises type) : { s with types := s.types.learnValue c t type : Session }.Normal where
  types d p inside := by
    rcases Registry.learnInv inside with rfl | old
    · exact normalises
    · exact normal.types d p old
  structs := normal.structs

theorem Normal.announce {s : Session} (normal : s.Normal) (frames : Frames) (fields : List (String × Ty)) (cls : String)
    (n : Nat) : { s with frames, structs := s.structs ++ [(fields, .struct false cls fields)], structCount := n :
      Session }.Normal where
  types := normal.types
  structs p inside := by
    rcases List.mem_append.1 inside with old | new
    · exact normal.structs p old
    · rw [List.mem_singleton.1 new]
      exact ⟨_, rfl⟩

theorem Room.fewer {s : Session} {n k : Nat} (room : s.Room (n + k)) : s.Room k :=
  { room with units := Nat.le_trans (Nat.add_le_add_left (Nat.le_add_left k n) _) room.units }

end Session

/-! ### What is remembered -/

def Normalising {α : Type} (x : Build α) (P : α → Prop) : Prop :=
  ∀ s : Session, s.Normal → Ends x s (fun _ s' => s'.Normal) fun v s' => P v ∧ s'.Normal

section

variable {α β : Type} {P : α → Prop} {R : β → Prop}

theorem normalisingPure {v : α} (h : P v) : Normalising (pure v) P := fun _ normal => ⟨h, normal⟩

theorem normalisingFail {c : Cause} : Normalising (Build.fail c) P := fun _ normal => normal

theorem normalisingSet {s : Session} (normal : s.Normal) : Normalising (set s) fun _ => True := fun _ _ => ⟨trivial, normal⟩

theorem normalisingBind {x : Build α} {f : α → Build β} (first : Normalising x P)
    (second : ∀ v, P v → Normalising (f v) R) : Normalising (x >>= f) R := by
  intro s normal
  rw [Build.endsBind]
  exact (first s normal).mono (fun v s' made => second v made.1 s' made.2) fun _ _ kept => kept

theorem normalisingStop {c : Cause} {f : α → Build β} : Normalising (Build.fail c >>= f) R :=
  normalisingBind (P := fun _ => False) normalisingFail fun _ never => never.elim

theorem normalisingGet {f : Session → Build β} (h : ∀ s : Session, s.Normal → Normalising (f s) R) :
    Normalising (get >>= f) R := fun s normal => h s normal s normal

theorem normalisingLift {x : Except Error α} (values : ∀ v, x = .ok v → P v) : Normalising (Build.lift x) P := by
  intro s normal
  cases x with
  | error err => exact normal
  | ok v => exact ⟨values v rfl, normal⟩

theorem openNormalising : Normalising Build.checkOpen fun _ => True := by
  refine normalisingGet ?_
  intro s _
  split
  · exact normalisingFail
  · exact normalisingPure trivial

theorem addNormalising (u : UnitDraft) : Normalising (Build.addUnit u) fun _ => True := by
  refine normalisingBind openNormalising ?_
  intro _ _
  refine normalisingGet ?_
  intro s normal
  dsimp only
  split
  · exact normalisingStop
  · split
    · exact normalisingStop
    · exact normalisingSet (normal.keep (fun _ => rfl) rfl)

end

theorem Struct.typeNormalising (fields : List (String × Ty)) : Normalising (Struct.type fields) fun t =>
    Struct.repeated? [] (fields.map (·.1)) = none ∧ ∃ cls, t = .struct false cls fields := by
  unfold Struct.type
  refine normalisingBind openNormalising ?_
  intro _ _
  split
  · exact normalisingFail
  · next apart =>
    refine normalisingGet ?_
    intro s normal
    split
    · next t known =>
      obtain ⟨l₁, l₂, same, _⟩ := List.lookup_eq_some_iff.1 known
      exact normalisingPure ⟨apart, normal.structs (fields, t) (by simp [same])⟩
    · dsimp only
      generalize unit _ fields _ s.frames = made
      obtain ⟨u, frames⟩ := made
      refine normalisingBind (normalisingSet (normal.announce frames fields _ _)) ?_
      intro _ _
      exact normalisingBind (addNormalising u) fun _ _ => normalisingPure ⟨apart, _, rfl⟩

namespace Resolve

variable {c : ContextId}

theorem hostNormalising (t : HostType) : Normalising (host c t) fun _ => True := by
  unfold host
  refine normalisingGet ?_
  intro s normal
  refine normalisingBind (normalisingSet (normal.keep (Registry.hostApart t s.types) rfl)) ?_
  exact fun _ _ => normalisingLift fun _ _ => trivial

theorem makeNormalising {t : ValueType} {x : Build Ty} (made : Normalising x t.Normalises) :
    Normalising (do
      match (← get).types.value? c t with
      | some type => return type
      | none => x) t.Normalises := by
  refine normalisingGet ?_
  intro s normal
  split
  · next type known =>
    obtain ⟨d, inside⟩ := Registry.valueInv known
    exact normalisingPure (normal.types d (t, type) inside)
  · exact made

theorem learnNormalising {t : ValueType} {type : Ty} (normalises : t.Normalises type) :
    Normalising (do
      modify fun s => { s with types := s.types.learnValue c t type }
      return type : Build Ty) t.Normalises := fun _ normal => ⟨normalises, normal.learn normalises⟩

theorem rememberNormalising {t : ValueType} {type : Ty} (normalises : t.Normalises type) :
    Normalising (do
      let type ← pure type
      modify fun s => { s with types := s.types.learnValue c t type }
      return type : Build Ty) t.Normalises :=
  normalisingBind (normalisingPure normalises) fun _ normalises => learnNormalising normalises

end Resolve

namespace ValueType.Normalises

variable {t k v : ValueType} {type key value : Ty}

theorem present (normalises : t.Normalises type) (canonical : t.Canonical) (present : t.isOptional = false) :
    type.presentType = t := by
  have same := normalises.same canonical
  rw [normalises.plain.presentIs (same ▸ present), same]

theorem array (normalises : t.Normalises type) : t.array.Normalises (Ty.list type).nonNull where
  plain := normalises.plain.listOf.withNull false
  same canonical := by
    cases canonical with
    | array present canonical =>
      rw [normalises.plain.listOf.nonNullProjects]
      exact congrArg ValueType.array ((Ty.presentBoxed type).trans (normalises.present canonical present))

theorem map (keys : k.Normalises key) (values : v.Normalises value) :
    (ValueType.map k v).Normalises (Ty.mapOf key value).nonNull where
  plain := (keys.plain.mapOf values.plain).withNull false
  same canonical := by
    cases canonical with
    | map keyPresent keyCanonical valuePresent valueCanonical =>
      rw [(keys.plain.mapOf values.plain).nonNullProjects]
      change ValueType.map key.boxed.presentType value.boxed.presentType = _
      rw [Ty.presentBoxed, Ty.presentBoxed, keys.present keyCanonical keyPresent,
        values.present valueCanonical valuePresent]

theorem optional (normalises : t.Normalises type) : t.optional.Normalises type.boxed.orNull where
  plain := (Ty.plainHereditary.boxed normalises.plain).withNull true
  same canonical := by
    cases canonical with
    | optional present some sized canonical =>
      have made : type ≠ .void := by
        rintro rfl
        exact sized (normalises.same canonical).symm
      rw [normalises.plain.orNullProjects made, normalises.present canonical present]
      cases t <;> first | rfl | contradiction

theorem openStruct (fs : List (String × ValueType)) : (ValueType.struct false fs).Normalises Ty.record.nonNull where
  plain := .atom
  same canonical := by
    cases canonical
    rfl

end ValueType.Normalises

def NormalFields (fs : List (String × ValueType)) (types : List (String × Ty)) : Prop :=
  List.Forall₂ (fun f type => type.1 = f.1 ∧ f.2.Normalises type.2) fs types

namespace NormalFields

variable {fs : List (String × ValueType)} {types : List (String × Ty)}

theorem plain (all : NormalFields fs types) : ∀ type ∈ types, type.2.Plain := by
  induction all with
  | nil => exact fun _ inside => absurd inside List.not_mem_nil
  | cons first _ ih => exact List.forall_mem_cons.2 ⟨first.2.plain, ih⟩

theorem same (all : NormalFields fs types) (canonical : ∀ f ∈ fs, f.2.Canonical) : Ty.fieldTypes types = fs := by
  induction all with
  | nil => rfl
  | cons first _ ih =>
    obtain ⟨here, later⟩ := List.forall_mem_cons.1 canonical
    rw [Ty.fieldTypes, ih later, first.1, first.2.same here]

theorem struct (all : NormalFields fs types) (apart : Struct.repeated? [] (types.map (·.1)) = none) (cls : String) :
    (ValueType.struct true fs).Normalises (Ty.struct false cls types).nonNull where
  plain := .struct apart all.plain
  same canonical := by
    cases canonical with
    | closed canonical => exact congrArg (ValueType.struct true) (all.same canonical)

end NormalFields

namespace Resolve

variable {c : ContextId}

mutual

theorem valueNormalising (t : ValueType) : Normalising (value c t) t.Normalises := by
  cases t with
  | scalar p =>
    rw [value]
    exact normalisingPure ⟨.prim, fun _ => rfl⟩
  | void =>
    rw [value]
    · exact makeNormalising (rememberNormalising ⟨.void, fun _ => rfl⟩)
    · exact nofun
  | string =>
    rw [value]
    · exact makeNormalising (rememberNormalising ⟨.atom, fun _ => rfl⟩)
    · exact nofun
  | bytes =>
    rw [value]
    · exact makeNormalising (rememberNormalising ⟨.atom, fun _ => rfl⟩)
    · exact nofun
  | timestamp =>
    rw [value]
    · exact makeNormalising (rememberNormalising ⟨.atom, fun _ => rfl⟩)
    · exact nofun
  | any =>
    rw [value]
    · exact makeNormalising (rememberNormalising ⟨.atom, fun _ => rfl⟩)
    · exact nofun
  | array e =>
    rw [value]
    · refine makeNormalising (normalisingBind (valueNormalising e) ?_)
      exact fun type element => rememberNormalising element.array
    · exact nofun
  | map k v =>
    rw [value]
    · refine makeNormalising (normalisingBind (valueNormalising k) ?_)
      intro key keys
      refine normalisingBind (valueNormalising v) ?_
      exact fun value values => rememberNormalising (keys.map values)
    · exact nofun
  | struct closed fs =>
    rw [value]
    · cases closed with
      | false => exact makeNormalising (rememberNormalising (.openStruct fs))
      | true =>
        refine makeNormalising (normalisingBind (fieldsNormalising fs) ?_)
        intro types all
        refine normalisingBind (Struct.typeNormalising types) ?_
        rintro _ ⟨apart, cls, rfl⟩
        exact rememberNormalising (all.struct apart cls)
    · exact nofun
  | optional t =>
    rw [value]
    · refine makeNormalising (normalisingBind (valueNormalising t) ?_)
      exact fun type inner => rememberNormalising inner.optional
    · exact nofun
  | union ts =>
    rw [value]
    · refine makeNormalising (normalisingBind (membersNormalising ts) ?_)
      intro types all
      refine normalisingBind (normalisingLift fun type is => Ty.plainHereditary.unifyAll all is) ?_
      exact fun type plain => learnNormalising ⟨plain, nofun⟩
    · exact nofun

theorem fieldsNormalising (fs : List (String × ValueType)) : Normalising (fields c fs) (NormalFields fs) := by
  cases fs with
  | nil =>
    rw [fields]
    exact normalisingPure .nil
  | cons f rest =>
    obtain ⟨name, t⟩ := f
    rw [fields]
    refine normalisingBind (valueNormalising t) ?_
    intro type first
    refine normalisingBind (fieldsNormalising rest) ?_
    exact fun types all => normalisingPure (.cons ⟨rfl, first⟩ all)

theorem membersNormalising (ts : List ValueType) : Normalising (members c ts) fun types => ∀ type ∈ types, type.Plain := by
  cases ts with
  | nil =>
    rw [members]
    exact normalisingPure nofun
  | cons t rest =>
    rw [members]
    refine normalisingBind (valueNormalising t) ?_
    intro type first
    refine normalisingBind (membersNormalising rest) ?_
    exact fun types all => normalisingPure (List.forall_mem_cons.2 ⟨first.plain, all⟩)

end

end Resolve

/-! ### What can be resolved -/

def Returning {α : Type} (n : Nat) (x : Build α) (P : α → Prop) : Prop :=
  ∀ (k : Nat) (s : Session), s.Room (n + k) → Ends x s (fun _ _ => False) fun v s' => P v ∧ s'.Room k

section

variable {α β : Type} {m n : Nat} {P : α → Prop} {R : β → Prop}

theorem returningPure {v : α} (h : P v) : Returning n (pure v) P := fun _ _ room => ⟨h, room.fewer⟩

theorem returningBind {x : Build α} {f : α → Build β} (first : Returning m x P)
    (second : ∀ v, P v → Returning n (f v) R) : Returning (m + n) (x >>= f) R := by
  intro k s room
  rw [Nat.add_assoc] at room
  rw [Build.endsBind]
  exact (first (n + k) s room).mono (fun v s' made => second v made.1 k s' made.2) fun _ _ never => never

end

theorem Struct.typeReturning {fields : List (String × Ty)} (apart : repeated? [] (fields.map (·.1)) = none) :
    Returning 1 (Struct.type fields) fun _ => True := by
  intro k s room
  unfold Struct.type
  rw [Build.endsBind, Build.endsOpen room.unbuilt, apart]
  dsimp only
  rw [Build.endsBind, Build.endsGet]
  cases s.structs.lookup fields with
  | some t => exact ⟨trivial, room.fewer⟩
  | none =>
    dsimp only
    have named : (unit (unitStem ++ toString s.structCount) fields (nextType s fields) s.frames).1.name =
      unitName s.structCount := rfl
    unfold nextType unitName at named
    generalize unit _ fields _ s.frames = made at named ⊢
    obtain ⟨u, frames⟩ := made
    rw [Build.endsBind, Build.endsSet, Build.endsBind]
    have fits := room.units
    refine Build.endsAddUnit room.unbuilt ?_ ?_
    · intro _ _ why
      rcases why with full | taken
      · unfold Session.Full at full
        dsimp only at full
        omega
      · have free : s.contains u.name = false := named ▸ room.names s.structCount (Nat.le_refl _)
        exact Bool.false_ne_true (free.symm.trans taken)
    · intro _ _
      refine ⟨trivial, room.unbuilt, ?_, ?_⟩
      · dsimp only
        rw [List.length_append, List.length_singleton]
        omega
      · intro m later
        have free := room.names m (Nat.le_of_succ_le later)
        have other : unitName m ≠ u.name := fun same => Nat.ne_of_gt later (unitNameInj (same.trans named))
        unfold Session.contains at free ⊢
        rw [List.contains_cons, free, Bool.or_false]
        exact beq_eq_false_iff_ne.2 other

namespace Resolve

variable {c : ContextId} {n : Nat}

theorem makeReturning {t : ValueType} {x : Build Ty} (made : Returning n x fun _ => True) :
    Returning n (do
      match (← get).types.value? c t with
      | some type => return type
      | none => x) fun _ => True := by
  intro k s room
  rw [Build.endsBind, Build.endsGet]
  cases s.types.value? c t with
  | some type => exact ⟨trivial, room.fewer⟩
  | none => exact made k s room

theorem rememberReturning (t : ValueType) (type : Ty) :
    Returning 0 (do
      let type ← pure type
      modify fun s => { s with types := s.types.learnValue c t type }
      return type : Build Ty) fun _ => True := by
  intro k s room
  rw [Nat.zero_add] at room
  exact ⟨trivial, { room with }⟩

mutual

theorem valueReturning (t : ValueType) (sound : t.Sound) : Returning t.closedStructs (value c t) fun _ => True := by
  cases sound with
  | scalar =>
    rw [value]
    exact returningPure trivial
  | void =>
    rw [value]
    · exact makeReturning (rememberReturning _ _)
    · exact nofun
  | string =>
    rw [value]
    · exact makeReturning (rememberReturning _ _)
    · exact nofun
  | bytes =>
    rw [value]
    · exact makeReturning (rememberReturning _ _)
    · exact nofun
  | timestamp =>
    rw [value]
    · exact makeReturning (rememberReturning _ _)
    · exact nofun
  | any =>
    rw [value]
    · exact makeReturning (rememberReturning _ _)
    · exact nofun
  | @array e element =>
    rw [value]
    · rw [ValueType.closedStructs]
      exact makeReturning (returningBind (n := 0) (valueReturning e element) fun type _ => rememberReturning _ _)
    · exact nofun
  | @map k v key value =>
    rw [Resolve.value]
    · rw [ValueType.closedStructs]
      refine makeReturning (returningBind (valueReturning k key) ?_)
      exact fun _ _ => returningBind (n := 0) (valueReturning v value) fun _ _ => rememberReturning _ _
    · exact nofun
  | open_ =>
    rw [value]
    · exact makeReturning (rememberReturning _ _)
    · exact nofun
  | @closed fs apart all =>
    rw [value]
    · rw [ValueType.closedStructs]
      refine makeReturning (returningBind (fieldsReturning fs all) ?_)
      intro types named
      refine returningBind (n := 0) (Struct.typeReturning (named ▸ apart)) ?_
      exact fun _ _ => rememberReturning _ _
    · exact nofun
  | @optional t inner =>
    rw [value]
    · rw [ValueType.closedStructs]
      exact makeReturning (returningBind (n := 0) (valueReturning t inner) fun _ _ => rememberReturning _ _)
    · exact nofun

theorem fieldsReturning (fs : List (String × ValueType)) (all : ∀ f ∈ fs, f.2.Sound) :
    Returning (ValueType.fieldStructs fs) (fields c fs) fun types => types.map (·.1) = fs.map (·.1) := by
  cases fs with
  | nil =>
    rw [fields]
    exact returningPure rfl
  | cons f rest =>
    obtain ⟨name, t⟩ := f
    obtain ⟨first, later⟩ := List.forall_mem_cons.1 all
    rw [fields]
    refine returningBind (valueReturning t first) ?_
    intro type _
    refine returningBind (n := 0) (fieldsReturning rest later) ?_
    intro types named
    exact returningPure (congrArg (name :: ·) named)

end

end Resolve

/-! ### Resolution of a projection -/

namespace Session

/-- What can be asked of the types of a session and of its units. -/
inductive Request where
  | context (parent : ContextId)
  | value (c : ContextId) (t : ValueType)
  | host (c : ContextId) (t : HostType)
  | struct (fields : List (String × Ty))
  | unit (u : UnitDraft)

def Request.perform : Request → Build Unit
  | .context parent => do let _ ← Build.newContext parent
  | .value c t => do let _ ← Resolve.value c t
  | .host c t => do let _ ← Resolve.host c t
  | .struct fields => do let _ ← Struct.type fields
  | .unit u => Build.addUnit u

/-- The session that requests leave, those that failed among them. -/
def after (s : Session) (requests : List Request) : Session := requests.foldl (fun s r => (r.perform s).2) s

end Session

theorem Normalising.left {α : Type} {x : Build α} {P : α → Prop} (normalising : Normalising x P) {s : Session}
    (normal : s.Normal) : (x s).2.Normal := by
  have ends := normalising s normal
  unfold Ends at ends
  rcases answer : x s with ⟨err | v, s'⟩
  · rw [answer] at ends
    exact ends
  · rw [answer] at ends
    exact ends.2

theorem Session.Request.normalising (r : Request) : Normalising r.perform fun _ => True := by
  cases r with
  | context parent =>
    refine normalisingBind (P := fun _ => True) ?_ fun _ _ => normalisingPure trivial
    refine normalisingGet ?_
    intro s normal
    exact normalisingBind (normalisingSet (normal.keep Registry.childValues rfl)) fun _ _ => normalisingPure trivial
  | value c t => exact normalisingBind (Resolve.valueNormalising t) fun _ _ => normalisingPure trivial
  | host c t => exact normalisingBind (Resolve.hostNormalising t) fun _ _ => normalisingPure trivial
  | struct fields => exact normalisingBind (Struct.typeNormalising fields) fun _ _ => normalisingPure trivial
  | unit u => exact addNormalising u

theorem Session.Normal.after {s : Session} (normal : s.Normal) (requests : List Request) : (s.after requests).Normal := by
  induction requests generalizing s with
  | nil => exact normal
  | cons r rest ih => exact ih (r.normalising.left normal)

/-- The projection of a type that a value type resolves to is in normal form, and is that value type where this was in
normal form already. Whatever is asked in between, the projection resolves to types of the same projection, and does so
where there is room for the units of its structs. -/
theorem Resolve.projectionIsNormalForm (config : Config) (heap : Heap) (earlier later : List Session.Request)
    (c : ContextId) (t : ValueType) {type : Ty} {s : Session}
    (resolved : value c t ((Session.new config heap).after earlier) = (.ok type, s)) :
    type.valueType.Canonical ∧ (t.Canonical → type.valueType = t) ∧
      (∀ d type' s', value d type.valueType (s.after later) = (.ok type', s') → type'.valueType = type.valueType) ∧
      ((s.after later).Room type.valueType.closedStructs →
        ∀ d, ∃ type' s', value d type.valueType (s.after later) = (.ok type', s')) := by
  have normal := (Session.newNormal config heap).after earlier
  obtain ⟨normalises, kept⟩ := (valueNormalising t _ normal).ok resolved
  have canonical := normalises.plain.canonical
  refine ⟨canonical, normalises.same, ?_, ?_⟩
  · intro d type' s' again
    exact ((valueNormalising _ _ (kept.after later)).ok again).1.same canonical
  · intro room d
    have ends := valueReturning (c := d) _ normalises.plain.sound 0 _ room
    rcases answer : value d type.valueType (s.after later) with ⟨err | type', s'⟩
    · exact (ends.error answer).elim
    · exact ⟨type', s', rfl⟩

def loose : ValueType :=
  .struct true [("items", .array (.optional .string)), ("sum", .union [.scalar .int32, .scalar .int64]),
    ("rest", .struct false [("note", .any)])]

def looseType : Ty :=
  .struct false "struct_1" [("items", .carrier false .list .string), ("sum", .int64), ("rest", .atom false .record)]

def tight : ValueType := .struct true [("items", .array .string), ("sum", .scalar .int64), ("rest", .openStruct)]

/-- A child context resolves after its parent has; the projection takes a unit of its own. -/
theorem Resolve.looseProjectsTight :
    let earlier : List Session.Request :=
      [.value 0 (.map .string (.struct true [("x", .scalar .int32)])), .host 0 .record, .context 0, .value 1 .bytes]
    let answer := value 1 loose ((Session.new .default .empty).after earlier)
    answer.1 = .ok looseType ∧ looseType.valueType = tight ∧ tight.Canonical ∧
      ∃ type s, value 1 tight answer.2 = (.ok type, s) ∧ type ≠ looseType ∧ type.valueType = tight := by
  intro earlier answer
  have resolved : answer.1 = .ok looseType := by decide +kernel
  have projection : looseType.valueType = tight := by decide
  obtain ⟨canonical, _, same, returns⟩ := projectionIsNormalForm .default .empty earlier [] 1 loose
    (Prod.ext resolved rfl : answer = (.ok looseType, answer.2))
  rw [projection] at canonical same returns
  have names : answer.2.names = [Struct.unitName 1, Struct.unitName 0] := by decide +kernel
  have count : answer.2.structCount = 2 := by decide +kernel
  have room : answer.2.Room tight.closedStructs := by
    refine ⟨by decide +kernel, by decide +kernel, ?_⟩
    intro m later
    rw [count] at later
    have first : Struct.unitName m ≠ Struct.unitName 1 := fun is => absurd (Struct.unitNameInj is) (by omega)
    have second : Struct.unitName m ≠ Struct.unitName 0 := fun is => absurd (Struct.unitNameInj is) (by omega)
    simp [Session.contains, names, first, second]
  obtain ⟨type, s, is⟩ := returns room 1
  have apart : (value 1 tight answer.2).1 ≠ .ok looseType := by decide +kernel
  refine ⟨resolved, projection, canonical, type, s, is, ?_, same 1 type s is⟩
  intro equal
  change value 1 tight answer.2 = _ at is
  rw [is, equal] at apart
  exact apart rfl

end QueryMachine
