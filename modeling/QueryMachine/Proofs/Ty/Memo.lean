import QueryMachine.Proofs.Effects
import QueryMachine.Proofs.Ty.Registry

/-! Host types resolved through contexts that remember. A context holds of a type what its structure gives, so that
no answer depends on the calls before it. -/
namespace QueryMachine

section

variable {ε α β : Type} {x : Except ε α} {b : β} {e : ε}

theorem exceptMap {f : α → β} (ok : f <$> x = .ok b) : ∃ a, x = .ok a ∧ f a = b := by
  cases x with
  | error e => contradiction
  | ok a => exact ⟨a, rfl, Except.ok.inj ok⟩

theorem exceptMapError {f : α → β} (failed : f <$> x = .error e) : x = .error e := by
  cases x with
  | error e => exact congrArg _ (Except.error.inj failed)
  | ok a => contradiction

theorem exceptBindError {f : α → Except ε β} (failed : (x >>= f) = .error e) :
    x = .error e ∨ ∃ a, x = .ok a ∧ f a = .error e := by
  cases x with
  | error e => exact .inl (congrArg _ (Except.error.inj failed))
  | ok a => exact .inr ⟨a, rfl, failed⟩

end

namespace HostType

def parts : HostType → List HostType
  | .array e | .list e | .future e | .provider e => [e]
  | .map k v => [k, v]
  | .cls _ properties _ => properties.map (·.2)
  | _ => []

inductive Contains : HostType → HostType → Prop
  | self (t : HostType) : Contains t t
  | part {t p o : HostType} (inside : p ∈ t.parts) (deeper : Contains p o) : Contains t o

mutual

def resolved : HostType → Except Error Ty
  | .void => .ok .void
  | .prim p => .ok (.prim p)
  | .boxed p => .ok (.boxedOf p)
  | .string => .ok .string
  | .bytes => .ok .bytes
  | .timestamp => .ok .timestamp
  | .object => .ok .any
  | .timeout => .ok .timeout
  | .record => .ok .record
  | .array e => Ty.array <$> resolved e
  | .list e => Ty.list <$> resolved e
  | .future e => Ty.promise <$> resolved e
  | .provider e => (fun t => t.boxed.orNull) <$> resolved e
  | .map k v => do
    let k ← resolved k
    Ty.mapOf k <$> resolved v
  | .enum name variants => .ok (.enumeration name variants)
  | .cls name properties comparable =>
    (fun ps => Ty.host true name ps comparable) <$> resolvedProperties properties
  | .unknown name => .error (.of (.unsupportedType name))

def resolvedProperties : List (String × HostType) → Except Error (List (String × Ty))
  | [] => .ok []
  | (name, t) :: rest => do
    let type ← resolved t
    return (name, type) :: (← resolvedProperties rest)

end

variable {t p o : HostType} {type : Ty} {err : Error}

theorem partSmaller (inside : p ∈ t.parts) : sizeOf p < sizeOf t := by
  cases t with
  | array e | list e | future e | provider e =>
    rw [List.mem_singleton.1 inside]
    simp
  | map k v =>
    rw [parts, List.mem_cons, List.mem_singleton] at inside
    rw [map.sizeOf_spec]
    rcases inside with rfl | rfl <;> omega
  | cls name properties comparable =>
    obtain ⟨⟨label, t⟩, member, rfl⟩ := List.mem_map.1 inside
    have smaller := List.sizeOf_lt_of_mem member
    simp at smaller ⊢
    omega
  | _ => contradiction

theorem byParts {P : HostType → Prop} (step : ∀ t, (∀ p ∈ t.parts, P p) → P t) (t : HostType) : P t :=
  step t fun p _ => byParts step p
termination_by sizeOf t
decreasing_by exact partSmaller ‹_›

theorem Contains.smaller (contains : t.Contains o) : sizeOf o ≤ sizeOf t := by
  induction contains with
  | self => exact Nat.le_refl _
  | part inside _ ih => exact Nat.le_trans ih (Nat.le_of_lt (partSmaller inside))

theorem scalarResolved (is : t.scalar? = some type) : t.resolved = .ok type := by
  cases t <;> first | contradiction | (cases is; simp only [resolved])

/-! ### What fails -/

theorem propertyResolved {ps : List (String × HostType)} {types : List (String × Ty)}
    (ok : resolvedProperties ps = .ok types) : ∀ q ∈ ps, ∃ type, q.2.resolved = .ok type := by
  induction ps generalizing types with
  | nil => simp
  | cons q rest ih =>
    rw [resolvedProperties] at ok
    obtain ⟨type, first, ok⟩ := exceptBind ok
    obtain ⟨types, later, _⟩ := exceptBind ok
    exact List.forall_mem_cons.2 ⟨⟨type, first⟩, ih later⟩

theorem partResolved (ok : t.resolved = .ok type) : ∀ p ∈ t.parts, ∃ type, p.resolved = .ok type := by
  cases t with
  | array e | list e | future e | provider e =>
    rw [resolved] at ok
    obtain ⟨type, ok, _⟩ := exceptMap ok
    exact List.forall_mem_singleton.2 ⟨type, ok⟩
  | map k v =>
    rw [resolved] at ok
    obtain ⟨key, first, ok⟩ := exceptBind ok
    obtain ⟨value, second, _⟩ := exceptMap ok
    exact List.forall_mem_cons.2 ⟨⟨key, first⟩, List.forall_mem_singleton.2 ⟨value, second⟩⟩
  | cls name properties comparable =>
    rw [resolved] at ok
    obtain ⟨types, ok, _⟩ := exceptMap ok
    exact List.forall_mem_map.2 (propertyResolved ok)
  | _ => simp [parts]

theorem resolvedInside (contains : t.Contains o) (ok : t.resolved = .ok type) : ∃ type, o.resolved = .ok type := by
  induction contains generalizing type with
  | self => exact ⟨type, ok⟩
  | part inside _ ih =>
    obtain ⟨type, ok⟩ := partResolved ok _ inside
    exact ih ok

theorem resolvedKnown (ok : t.resolved = .ok type) (name : String) : ¬ t.Contains (.unknown name) := by
  intro contains
  obtain ⟨type, ok⟩ := resolvedInside contains ok
  rw [resolved] at ok
  contradiction

theorem propertyFailed {ps : List (String × HostType)} (failed : resolvedProperties ps = .error err) :
    ∃ q ∈ ps, q.2.resolved = .error err := by
  induction ps with
  | nil =>
    rw [resolvedProperties] at failed
    contradiction
  | cons q rest ih =>
    rw [resolvedProperties] at failed
    rcases exceptBindError failed with first | ⟨type, _, failed⟩
    · exact ⟨q, List.mem_cons_self, first⟩
    · rcases exceptBindError failed with later | ⟨types, _, failed⟩
      · obtain ⟨q', member, is⟩ := ih later
        exact ⟨q', List.mem_cons_of_mem _ member, is⟩
      · contradiction

theorem failedPart (failed : t.resolved = .error err) :
    (∃ name, t = .unknown name ∧ err = .of (.unsupportedType name)) ∨ ∃ p ∈ t.parts, p.resolved = .error err := by
  cases t with
  | array e | list e | future e | provider e =>
    rw [resolved] at failed
    exact .inr ⟨e, List.mem_singleton_self e, exceptMapError failed⟩
  | map k v =>
    rw [resolved] at failed
    rcases exceptBindError failed with first | ⟨key, _, failed⟩
    · exact .inr ⟨k, by simp [parts], first⟩
    · exact .inr ⟨v, by simp [parts], exceptMapError failed⟩
  | cls name properties comparable =>
    rw [resolved] at failed
    obtain ⟨q, member, is⟩ := propertyFailed (exceptMapError failed)
    exact .inr ⟨q.2, List.mem_map_of_mem member, is⟩
  | unknown name =>
    rw [resolved] at failed
    cases failed
    exact .inl ⟨name, rfl, rfl⟩
  | _ =>
    rw [resolved] at failed
    contradiction

theorem failedUnknown (failed : t.resolved = .error err) :
    ∃ name, err = .of (.unsupportedType name) ∧ t.Contains (.unknown name) := by
  induction t using byParts with
  | step t ih =>
    rcases failedPart failed with ⟨name, rfl, is⟩ | ⟨p, inside, failed⟩
    · exact ⟨name, is, .self _⟩
    · obtain ⟨name, is, contains⟩ := ih p inside failed
      exact ⟨name, is, .part inside contains⟩

theorem failsIff : (∃ err, t.resolved = .error err) ↔ ∃ name, t.Contains (.unknown name) := by
  constructor
  · rintro ⟨err, failed⟩
    obtain ⟨name, _, contains⟩ := failedUnknown failed
    exact ⟨name, contains⟩
  · rintro ⟨name, contains⟩
    cases answer : t.resolved with
    | error err => exact ⟨err, rfl⟩
    | ok type => exact absurd contains (resolvedKnown answer name)

end HostType

namespace Registry

variable {r r' r'' : Registry} {c d : ContextId} {t p : HostType} {type : Ty} {P P' : HostType → Prop}

def Sound (r : Registry) : Prop := ∀ d, ∀ e ∈ (r.context d).hosts, e.1.resolved = .ok e.2

theorem newContext (d : ContextId) : new.context d = ⟨[], [], []⟩ := by cases d <;> rfl

theorem newSound : new.Sound := by
  intro d
  simp [newContext]

theorem learnHostContext (d : ContextId) : (r.learnHost c t type).context d =
    if d = c ∧ c < r.contexts.size then { r.context c with hosts := (t, type) :: (r.context c).hosts }
    else r.context d := by
  unfold learnHost context
  simp only [Array.getD_eq_getD_getElem?, Array.getElem?_setIfInBounds]
  by_cases same : d = c
  · subst same
    by_cases inRange : d < r.contexts.size <;> simp [inRange]
  · simp [same, Ne.symm same]

theorem Sound.child (sound : r.Sound) (c : ContextId) : (r.child c).2.Sound := by
  intro d e inside
  rw [childHosts] at inside
  exact sound d e inside

/-! ### What a context and its ancestors know -/

theorem unknownIff : r.host? c t = none ↔
    ∀ d ∈ c :: (r.context c).ancestors, ∀ e ∈ (r.context d).hosts, t ≠ e.1 := by
  unfold host? chain
  simp only [List.findSome?_eq_none_iff, List.forall_mem_map, List.lookup_eq_none_iff, bne_iff_ne]

theorem Sound.known (sound : r.Sound) (known : r.host? c t = some type) : t.resolved = .ok type := by
  obtain ⟨x, inside, found⟩ := List.exists_of_findSome?_eq_some known
  obtain ⟨d, _, rfl⟩ := List.mem_map.1 inside
  obtain ⟨before, after, same, _⟩ := List.lookup_eq_some_iff.1 found
  exact sound d (t, type) (by simp [same])

theorem Sound.knows (sound : r.Sound) (ok : t.resolved = .ok type) {e : Ty} (held : (t, e) ∈ (r.context c).hosts) :
    r.host? c t = some type := by
  cases asked : r.host? c t with
  | none => exact absurd rfl (unknownIff.1 asked c List.mem_cons_self (t, e) held)
  | some other =>
    have same := sound.known asked
    rw [ok] at same
    cases same
    rfl

structure Learns (c : ContextId) (P : HostType → Prop) (r r' : Registry) : Prop where
  size : r'.contexts.size = r.contexts.size
  others : ∀ d, d ≠ c → r'.context d = r.context d
  ancestors : (r'.context c).ancestors = (r.context c).ancestors
  hosts : ∃ new, (r'.context c).hosts = new ++ (r.context c).hosts ∧
    ∀ e ∈ new, P e.1 ∧ r.host? c e.1 = none ∧ e.1.resolved = .ok e.2

theorem Learns.refl (r : Registry) : Learns c P r r where
  size := rfl
  others _ _ := rfl
  ancestors := rfl
  hosts := ⟨[], rfl, List.forall_mem_nil _⟩

theorem Learns.holds (learns : Learns c P r r') {e : HostType × Ty} (held : e ∈ (r.context d).hosts) :
    e ∈ (r'.context d).hosts := by
  by_cases same : d = c
  · subst same
    obtain ⟨new, is, _⟩ := learns.hosts
    rw [is]
    exact List.mem_append_right _ held
  · rw [learns.others d same]
    exact held

theorem Learns.fewer (learns : Learns c P r r') (unknown : r'.host? c t = none) : r.host? c t = none := by
  rw [unknownIff, learns.ancestors] at unknown
  rw [unknownIff]
  intro d inside e held
  exact unknown d inside e (learns.holds held)

theorem Learns.apart (learns : Learns c P r r') (unknown : r.host? c t = none) (other : ¬ P t) :
    r'.host? c t = none := by
  rw [unknownIff] at unknown ⊢
  rw [learns.ancestors]
  intro d inside e held
  by_cases same : d = c
  · subst same
    obtain ⟨new, is, learnt⟩ := learns.hosts
    rw [is, List.mem_append] at held
    rcases held with fresh | older
    · rintro rfl
      exact other (learnt e fresh).1
    · exact unknown d inside e older
  · rw [learns.others d same] at held
    exact unknown d inside e held

theorem Learns.mono (learns : Learns c P r r') (more : ∀ t, P t → P' t) : Learns c P' r r' where
  size := learns.size
  others := learns.others
  ancestors := learns.ancestors
  hosts := by
    obtain ⟨new, is, learnt⟩ := learns.hosts
    exact ⟨new, is, fun e fresh => ⟨more _ (learnt e fresh).1, (learnt e fresh).2⟩⟩

theorem Learns.trans (first : Learns c P r r') (second : Learns c P r' r'') : Learns c P r r'' where
  size := second.size.trans first.size
  others d other := (second.others d other).trans (first.others d other)
  ancestors := second.ancestors.trans first.ancestors
  hosts := by
    obtain ⟨new, is, learnt⟩ := first.hosts
    obtain ⟨new', is', learnt'⟩ := second.hosts
    refine ⟨new' ++ new, by rw [is', is, List.append_assoc], ?_⟩
    intro e fresh
    rcases List.mem_append.1 fresh with later | earlier
    · obtain ⟨meant, unknown, holds⟩ := learnt' e later
      exact ⟨meant, first.fewer unknown, holds⟩
    · exact learnt e earlier

theorem Learns.sound (learns : Learns c P r r') (sound : r.Sound) : r'.Sound := by
  intro d e held
  by_cases same : d = c
  · subst same
    obtain ⟨new, is, learnt⟩ := learns.hosts
    rw [is, List.mem_append] at held
    rcases held with fresh | older
    · exact (learnt e fresh).2.2
    · exact sound d e older
  · rw [learns.others d same] at held
    exact sound d e held

theorem learnsOne (unknown : r.host? c t = none) (ok : t.resolved = .ok type) :
    Learns c (· = t) r (r.learnHost c t type) where
  size := by simp [learnHost]
  others d other := by rw [learnHostContext, if_neg fun both => other both.1]
  ancestors := by
    rw [learnHostContext]
    split <;> rfl
  hosts := by
    rw [learnHostContext]
    split
    · exact ⟨[(t, type)], rfl, List.forall_mem_singleton.2 ⟨rfl, unknown, ok⟩⟩
    · exact ⟨[], rfl, List.forall_mem_nil _⟩

theorem learntHeld (inRange : c < r.contexts.size) : (t, type) ∈ ((r.learnHost c t type).context c).hosts := by
  rw [learnHostContext, if_pos ⟨rfl, inRange⟩]
  exact List.mem_cons_self

/-! ### Resolution -/

def Memoizes {α : Type} (c : ContextId) (P : HostType → Prop) (x : Resolving α) (answer : Except Error α) : Prop :=
  ∀ r : Registry, r.Sound → (x r).1 = answer ∧ Learns c P r (x r).2

section

variable {α β : Type} {x : Resolving α} {answer : Except Error α}

theorem memoizesPure (v : α) : Memoizes c P (pure v) (.ok v) := fun r _ => ⟨rfl, .refl r⟩

theorem memoizesThrow (err : Error) : Memoizes c P (throw err : Resolving α) (.error err) := fun r _ => ⟨rfl, .refl r⟩

theorem memoizesBind {f : α → Resolving β} {next : α → Except Error β} (first : Memoizes c P x answer)
    (second : ∀ v, Memoizes c P (f v) (next v)) : Memoizes c P (x >>= f) (answer >>= next) := by
  intro r sound
  obtain ⟨same, learns⟩ := first r sound
  simp only [bind, ExceptT.bind, ExceptT.mk, StateT.bind]
  rcases run : x r with ⟨err | v, r'⟩
  · rw [run] at same learns
    cases same
    exact ⟨rfl, learns⟩
  · rw [run] at same learns
    cases same
    obtain ⟨same', learns'⟩ := second v r' (learns.sound sound)
    exact ⟨same', learns.trans learns'⟩

theorem memoizesMap (f : α → β) (first : Memoizes c P x answer) : Memoizes c P (f <$> x) (f <$> answer) := by
  have mapped := memoizesBind first fun v => memoizesPure (c := c) (P := P) (f v)
  rw [bind_pure_comp] at mapped
  cases answer <;> exact mapped

theorem Memoizes.mono (memoizes : Memoizes c P x answer) (more : ∀ t, P t → P' t) : Memoizes c P' x answer :=
  fun r sound => ⟨(memoizes r sound).1, (memoizes r sound).2.mono more⟩

end

def remember (c : ContextId) (t : HostType) (adapt : Resolving Ty) : Resolving Ty := do
  match (← get).host? c t with
  | some type => return type
  | none =>
    let type ← adapt
    modify (·.learnHost c t type)
    return type

section

variable {adapt : Resolving Ty}

theorem rememberKnown (known : r.host? c t = some type) : remember c t adapt r = (.ok type, r) := by
  change (match r.host? c t with
    | some type => pure type
    | none => _ : Resolving Ty) r = _
  rw [known]
  rfl

theorem rememberUnknown (unknown : r.host? c t = none) : remember c t adapt r =
    match adapt r with
    | (.ok type, r') => (.ok type, r'.learnHost c t type)
    | (.error err, r') => (.error err, r') := by
  change (match r.host? c t with
    | some type => pure type
    | none => (do
      let type ← adapt
      modify (·.learnHost c t type)
      return type) : Resolving Ty) r = _
  rw [unknown]
  simp only [bind, ExceptT.bind, ExceptT.mk, StateT.bind]
  rcases adapt r with ⟨err | type, r'⟩ <;> rfl

def Inside (t p : HostType) : Prop := ∃ q ∈ t.parts, q.Contains p

theorem insideContains (inside : Inside t p) : t.Contains p := by
  obtain ⟨q, member, contains⟩ := inside
  exact .part member contains

theorem insideOther : ¬ Inside t t := by
  rintro ⟨q, member, contains⟩
  exact absurd (HostType.partSmaller member) (Nat.not_lt.2 contains.smaller)

theorem remembers (adapts : Memoizes c (Inside t) adapt t.resolved) (sound : r.Sound) (inRange : c < r.contexts.size)
    (ok : t.resolved = .ok type) : (remember c t adapt r).2.host? c t = some type := by
  cases asked : r.host? c t with
  | some other =>
    rw [rememberKnown asked]
    have holds := sound.known asked
    rw [ok] at holds
    cases holds
    exact asked
  | none =>
    rw [rememberUnknown asked]
    obtain ⟨same, learns⟩ := adapts r sound
    rcases run : adapt r with ⟨err | other, r'⟩
    · rw [run, ok] at same
      contradiction
    · rw [run] at same learns
      rw [ok] at same
      cases same
      have last := learnsOne (learns.apart asked insideOther) ok
      exact (last.sound (learns.sound sound)).knows ok (learntHeld (learns.size ▸ inRange))

theorem rememberMemoizes (adapts : Memoizes c (Inside t) adapt t.resolved) :
    Memoizes c t.Contains (remember c t adapt) t.resolved := by
  intro r sound
  cases asked : r.host? c t with
  | some type =>
    rw [rememberKnown asked]
    exact ⟨(sound.known asked).symm, .refl r⟩
  | none =>
    rw [rememberUnknown asked]
    obtain ⟨same, learns⟩ := adapts r sound
    rcases run : adapt r with ⟨err | type, r'⟩
    · rw [run] at same learns
      exact ⟨same, learns.mono fun _ => insideContains⟩
    · rw [run] at same learns
      have last := learnsOne (learns.apart asked insideOther) same.symm
      refine ⟨same, (learns.mono fun _ => insideContains).trans (last.mono ?_)⟩
      rintro p rfl
      exact .self p

end

theorem propertiesMemoize {ps : List (String × HostType)}
    (each : ∀ q ∈ ps, Memoizes c q.2.Contains (resolveHost c q.2) q.2.resolved) :
    Memoizes c (fun p => ∃ q ∈ ps, q.2.Contains p) (resolveProperties c ps) (HostType.resolvedProperties ps) := by
  induction ps with
  | nil =>
    rw [resolveProperties, HostType.resolvedProperties]
    exact memoizesPure []
  | cons q rest ih =>
    obtain ⟨name, t⟩ := q
    rw [List.forall_mem_cons] at each
    rw [resolveProperties, HostType.resolvedProperties]
    refine memoizesBind (each.1.mono ?_) fun type => memoizesBind ((ih each.2).mono ?_) fun types => memoizesPure _
    · intro p contains
      exact ⟨(name, t), List.mem_cons_self, contains⟩
    · rintro p ⟨q, member, contains⟩
      exact ⟨q, List.mem_cons_of_mem _ member, contains⟩

theorem hostAdapts (deep : t.scalar? = none) (each : ∀ p ∈ t.parts, Memoizes c p.Contains (resolveHost c p) p.resolved) :
    ∃ adapt, Memoizes c (Inside t) adapt t.resolved ∧ resolveHost c t = remember c t adapt := by
  have part : ∀ p ∈ t.parts, Memoizes c (Inside t) (resolveHost c p) p.resolved := by
    intro p inside
    exact (each p inside).mono fun o contains => ⟨p, inside, contains⟩
  rw [resolveHost, HostType.resolved.eq_def]
  cases t with
  | array e => exact ⟨_, memoizesMap _ (part e (List.mem_singleton_self e)), rfl⟩
  | list e => exact ⟨_, memoizesMap _ (part e (List.mem_singleton_self e)), rfl⟩
  | future e => exact ⟨_, memoizesMap _ (part e (List.mem_singleton_self e)), rfl⟩
  | provider e => exact ⟨_, memoizesMap _ (part e (List.mem_singleton_self e)), rfl⟩
  | map k v =>
    have key := part k (by simp [HostType.parts])
    have value := part v (by simp [HostType.parts])
    refine ⟨_, memoizesBind key fun k => memoizesMap (Ty.mapOf k) value, ?_⟩
    simp only [remember, bind_assoc]
    rfl
  | enum name variants => exact ⟨_, memoizesPure _, rfl⟩
  | record => exact ⟨_, memoizesPure _, rfl⟩
  | cls name properties comparable =>
    have all := propertiesMemoize (List.forall_mem_map.1 each)
    refine ⟨_, memoizesMap _ (all.mono ?_), rfl⟩
    rintro p ⟨q, member, contains⟩
    exact ⟨q.2, List.mem_map_of_mem member, contains⟩
  | unknown name => exact ⟨_, memoizesThrow _, rfl⟩
  | _ => contradiction

theorem hostScalar (is : t.scalar? = some type) : resolveHost c t = pure type := by
  rw [resolveHost, is]

theorem hostMemoizes (t : HostType) : Memoizes c t.Contains (resolveHost c t) t.resolved := by
  induction t using HostType.byParts with
  | step t ih =>
    cases scalar : t.scalar? with
    | some type =>
      rw [hostScalar scalar, HostType.scalarResolved scalar]
      exact memoizesPure type
    | none =>
      obtain ⟨adapt, adapts, is⟩ := hostAdapts scalar ih
      rw [is]
      exact rememberMemoizes adapts

theorem hostKnown (known : r.host? c t = some type) : (resolveHost c t r).2 = r := by
  cases scalar : t.scalar? with
  | some type =>
    rw [hostScalar scalar]
    rfl
  | none =>
    obtain ⟨adapt, _, is⟩ := hostAdapts (c := c) scalar fun p _ => hostMemoizes p
    rw [is, rememberKnown known]

theorem hostRemembered (sound : r.Sound) (inRange : c < r.contexts.size) (deep : t.scalar? = none)
    (ok : t.resolved = .ok type) : (resolveHost c t r).2.host? c t = some type := by
  obtain ⟨adapt, adapts, is⟩ := hostAdapts (c := c) deep fun p _ => hostMemoizes p
  rw [is]
  exact remembers adapts sound inRange ok

/-! ### Calls on a tree of contexts -/

inductive Call
  | child (c : ContextId)
  | resolve (c : ContextId) (t : HostType)

namespace Call

def next (r : Registry) : Call → Registry
  | child c => (r.child c).2
  | resolve c t => (resolveHost c t r).2

def answer? (r : Registry) : Call → Option (Except Error Ty)
  | child _ => none
  | resolve c t => some (resolveHost c t r).1

def expected? : Call → Option (Except Error Ty)
  | child _ => none
  | resolve _ t => some t.resolved

end Call

def after (r : Registry) (calls : List Call) : Registry := calls.foldl Call.next r

def answers (r : Registry) : List Call → List (Except Error Ty)
  | [] => []
  | call :: rest => (call.answer? r).toList ++ answers (call.next r) rest

theorem Sound.next (sound : r.Sound) (call : Call) : (call.next r).Sound := by
  cases call with
  | child c => exact sound.child c
  | resolve c t => exact (hostMemoizes t r sound).2.sound sound

theorem Sound.after (sound : r.Sound) (calls : List Call) : (r.after calls).Sound := by
  induction calls generalizing r with
  | nil => exact sound
  | cons call rest ih => exact ih (sound.next call)

theorem Sound.expected (sound : r.Sound) (call : Call) : call.answer? r = call.expected? := by
  cases call with
  | child c => rfl
  | resolve c t => exact congrArg some (hostMemoizes t r sound).1

theorem Sound.answers (sound : r.Sound) (calls : List Call) : r.answers calls = calls.filterMap Call.expected? := by
  induction calls generalizing r with
  | nil => rfl
  | cons call rest ih =>
    rw [Registry.answers, ih (sound.next call), sound.expected call]
    cases call <;> rfl

/-- Whatever was asked of a tree of contexts before, a call answers what the structure of the type gives. It leaves the
other contexts alone, learns parts of the type that its context did not know, never one with an unknown class in it, and
no later answer depends on it. What is known, by an ancestor too, is not learnt again. -/
theorem resolutionTransparent (calls : List Call) (c : ContextId) (t : HostType) :
    let r := new.after calls
    let r' := (resolveHost c t r).2
    (resolveHost c t r).1 = t.resolved ∧
    (∀ d, d ≠ c → r'.context d = r.context d) ∧
    (∃ learnt, (r'.context c).hosts = learnt ++ (r.context c).hosts ∧
      ∀ e ∈ learnt, t.Contains e.1 ∧ r.host? c e.1 = none) ∧
    ((∃ err, t.resolved = .error err) ↔ ∃ name, t.Contains (.unknown name)) ∧
    (∀ d, ∀ e ∈ (r'.context d).hosts, ∀ name, ¬ e.1.Contains (.unknown name)) ∧
    (∀ later, r'.answers later = r.answers later) ∧
    (∀ type, r.host? c t = some type → r' = r) ∧
    (c < r.contexts.size → t.scalar? = none → ∀ type, t.resolved = .ok type → r'.host? c t = some type) ∧
    (r.child c).2.host? (r.child c).1 t = r.host? c t := by
  intro r r'
  have sound : r.Sound := newSound.after calls
  obtain ⟨answer, learns⟩ := hostMemoizes (c := c) t r sound
  have sound' : r'.Sound := learns.sound sound
  obtain ⟨learnt, hosts, each⟩ := learns.hosts
  refine ⟨answer, learns.others, ⟨learnt, hosts, fun e fresh => ⟨(each e fresh).1, (each e fresh).2.1⟩⟩,
    HostType.failsIff, ?_, ?_, fun type => hostKnown, ?_, childHears t⟩
  · intro d e held
    exact HostType.resolvedKnown (sound' d e held)
  · intro later
    rw [sound'.answers later, sound.answers later]
  · intro inRange deep type ok
    exact hostRemembered sound inRange deep ok

/-- A child answers from what its parent resolved and holds nothing itself; what it is refused leaves it as it was. -/
theorem childReadsParent :
    let list := HostType.list .string
    let r := new.after [.resolve 0 list, .child 0]
    r.host? 1 list = some (.list .string) ∧ (resolveHost 1 list r).1 = .ok (.list .string) ∧ (resolveHost 1 list r).2 = r ∧
      (resolveHost 1 (.map list (.unknown "Key")) r).1 = .error (.of (.unsupportedType "Key")) := by
  intro list r
  obtain ⟨_, _, _, _, _, _, _, learnt, _⟩ := resolutionTransparent [] 0 list
  obtain ⟨_, _, _, _, _, _, _, _, heard⟩ := resolutionTransparent [.resolve 0 list] 0 list
  obtain ⟨answer, _, _, _, _, _, same, _⟩ := resolutionTransparent [.resolve 0 list, .child 0] 1 list
  obtain ⟨refused, _⟩ := resolutionTransparent [.resolve 0 list, .child 0] 1 (.map list (.unknown "Key"))
  have ok : list.resolved = .ok (.list .string) := by simp only [list, HostType.resolved]; rfl
  have child : ((new.after [.resolve 0 list]).child 0).1 = 1 := (hostMemoizes list new newSound).2.size
  rw [child] at heard
  have known : r.host? 1 list = some (.list .string) := heard.trans (learnt (by decide) rfl _ ok)
  refine ⟨known, answer.trans ok, same _ known, refused.trans ?_⟩
  rw [HostType.resolved, ok, HostType.resolved]
  rfl

end Registry

end QueryMachine
