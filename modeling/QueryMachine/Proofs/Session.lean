import QueryMachine.Proofs.Ty.Registry
import QueryMachine.Proofs.Unit.Struct

/-! Sessions as they go on. What was built once stays valid: frames and known classes only grow, and every unit that
was accepted can be rendered. -/
namespace QueryMachine

open Build (Ends)

def Refusal (err : Error) : Prop := err.cause.isInternal = false

structure UnitDraft.Sound (knows : String → Prop) (made : Frames) (u : UnitDraft) : Prop where
  ready : ∀ m ∈ u.methods, m.Ready (fun _ => False) knows made fun _ _ _ => True
  typed : ∀ m ∈ u.methods, m.ref.returns = m.returns.rep
  filled : u.isEmpty = false
  unprepared : u.prepare = []

theorem UnitDraft.Sound.mono {knows knows' : String → Prop} {made made' : Frames} {u : UnitDraft}
    (sound : u.Sound knows made) (more : ∀ cls, knows cls → knows' cls) (grows : made.Grows made') :
    u.Sound knows' made' where
  ready m inside := (sound.ready m inside).mono (fun _ h => h) more grows fun _ _ _ h => h
  typed := sound.typed
  filled := sound.filled
  unprepared := sound.unprepared

theorem numberInj {m n : Nat} (same : toString m = toString n) : m = n := by
  have digits : Nat.toDigits 10 m = Nat.toDigits 10 n := by
    rw [← Nat.toList_repr, ← Nat.toList_repr]
    exact congrArg String.toList same
  rw [← Nat.ofDigitChars_ten_toDigits (n := m), digits, Nat.ofDigitChars_ten_toDigits]

def Struct.unitName (n : Nat) : String := unitStem ++ toString n

theorem Struct.unitNameInj {m n : Nat} (same : unitName m = unitName n) : m = n :=
  numberInj (String.append_right_inj unitStem |>.1 same)

def Constants.Numbered (c : Constants) : Prop :=
  ∀ (i : Nat) (k : Hoisted), c.hoisted[i]? = some k → k.field = ⟨unitName, "c" ++ toString i, k.type.rep⟩

structure ValueType.Resolves (knows : String → Prop) (t : ValueType) (type : Ty) : Prop where
  regular : type.Regular knows
  scalar : ∀ p, t = .scalar p → type = .prim p
  optional : ∀ p, t = .optional (.scalar p) → type = .boxedOf p

theorem ValueType.Resolves.mono {knows knows' : String → Prop} {t : ValueType} {type : Ty} (resolves : t.Resolves knows type)
    (more : ∀ cls, knows cls → knows' cls) : t.Resolves knows' type :=
  { resolves with regular := resolves.regular.mono more }

namespace Session

def Full (s : Session) : Prop := s.config.maxUnits ≤ s.units.length

def Knows (s : Session) (cls : String) : Prop :=
  s.Full ∨ (∃ u ∈ s.units, u.name = cls) ∨ cls = Constants.unitName ∧ s.constants.hoisted ≠ []

structure Later (s s' : Session) : Prop where
  frames : s.frames.Grows s'.frames
  knows : ∀ cls, s.Knows cls → s'.Knows cls
  config : s'.config = s.config
  heap : s'.heap = s.heap
  constants : s.constants.hoisted <+: s'.constants.hoisted
  structs : s.structs <+: s'.structs

theorem Later.refl (s : Session) : s.Later s where
  frames := .refl _
  knows _ h := h
  config := rfl
  heap := rfl
  constants := List.prefix_refl _
  structs := List.prefix_refl _

theorem Later.trans {s s' s'' : Session} (first : s.Later s') (second : s'.Later s'') : s.Later s'' where
  frames := first.frames.trans second.frames
  knows cls h := second.knows cls (first.knows cls h)
  config := second.config.trans first.config
  heap := second.heap.trans first.heap
  constants := first.constants.trans second.constants
  structs := first.structs.trans second.structs

structure Good (s : Session) : Prop where
  unbuilt : s.built = false
  units : ∀ u ∈ s.units, u.Sound s.Knows s.frames
  numbered : ∀ u ∈ s.units, ∃ n, n < s.structCount ∧ u.name = Struct.unitName n
  distinct : (s.units.map (·.name)).Nodup
  names : ∀ name ∈ s.names, ∃ u ∈ s.units, u.name = name
  structs : ∀ p ∈ s.structs, (∃ cls, p.2 = .struct false cls p.1) ∧ p.2.Regular s.Knows
  types : ∀ c, ∀ p ∈ (s.types.context c).values, p.1.Resolves s.Knows p.2
  locals : ∀ l, s.frames.Has l → l.type.Regular s.Knows
  constants : s.constants.Numbered

theorem Good.keep {s s' : Session} (good : s.Good) (later : s.Later s') (built : s'.built = s.built)
    (units : s'.units = s.units) (names : s'.names = s.names) (structs : s'.structs = s.structs)
    (count : s'.structCount = s.structCount)
    (types : ∀ c, ∀ p ∈ (s'.types.context c).values, p ∈ (s.types.context c).values ∨ p.1.Resolves s'.Knows p.2)
    (locals : ∀ l, s'.frames.Has l → s.frames.Has l ∨ l.type.Regular s'.Knows)
    (constants : s'.constants.Numbered) : s'.Good where
  unbuilt := built.trans good.unbuilt
  units u inside := (good.units u (units ▸ inside)).mono later.knows later.frames
  numbered u inside := by
    rw [count]
    exact good.numbered u (units ▸ inside)
  distinct := by
    rw [units]
    exact good.distinct
  names name inside := by
    rw [units]
    exact good.names name (names ▸ inside)
  structs p inside := by
    obtain ⟨is, regular⟩ := good.structs p (structs ▸ inside)
    exact ⟨is, regular.mono later.knows⟩
  types c p inside := (types c p inside).elim (fun old => (good.types c p old).mono later.knows) id
  locals l has := (locals l has).elim (fun old => (good.locals l old).mono later.knows) id
  constants := constants

theorem Near.later {s s' : Session} (near : s.Near s') : s.Later s' := by
  obtain ⟨n, rfl⟩ := near
  exact { Later.refl s with }

theorem Near.good {s s' : Session} (near : s.Near s') (good : s.Good) : s'.Good := by
  have later := near.later
  obtain ⟨n, rfl⟩ := near
  exact good.keep later rfl rfl rfl rfl rfl (fun _ _ h => .inl h) (fun _ h => .inl h) good.constants

end Session

def Advances {α : Type} (x : Build α) (s : Session) (P : α → Session → Prop) : Prop :=
  Ends x s (fun err s' => Refusal err ∧ s.Later s' ∧ s'.Good) fun v s' => P v s' ∧ s.Later s' ∧ s'.Good

section

variable {α β : Type} {s : Session} {P : α → Session → Prop} {R : β → Session → Prop}

theorem advancesPure {v : α} (good : s.Good) (h : P v s) : Advances (pure v) s P := ⟨h, .refl s, good⟩

theorem advancesFail {c : Cause} (good : s.Good) (refusal : c.isInternal = false) : Advances (Build.fail c) s P :=
  ⟨refusal, .refl s, good⟩

theorem advancesBind {x : Build α} {f : α → Build β} (first : Advances x s P)
    (second : ∀ v s', s.Later s' → s'.Good → P v s' → Advances (f v) s' R) : Advances (x >>= f) s R := by
  unfold Advances
  rw [Build.endsBind]
  refine first.mono ?_ fun _ _ h => h
  intro v s' ⟨h, later, good⟩
  refine (second v s' later good h).mono ?_ ?_
  · intro w s'' ⟨made, more, good⟩
    exact ⟨made, later.trans more, good⟩
  · intro err s'' ⟨refusal, more, good⟩
    exact ⟨refusal, later.trans more, good⟩

theorem Advances.mono {x : Build α} {P' : α → Session → Prop} (h : Advances x s P)
    (weaker : ∀ v s', s.Later s' → s'.Good → P v s' → P' v s') : Advances x s P' :=
  Ends.mono h (fun v s' is => ⟨weaker v s' is.2.1 is.2.2 is.1, is.2⟩) fun _ _ is => is

theorem advancesSteady {x : Build α} {H : α → Prop} (good : s.Good) (steady : Steady x H) :
    Advances x s fun v _ => H v := by
  refine (steady s).mono ?_ ?_
  · intro v s' ⟨h, near⟩
    exact ⟨h, near.later, near.good good⟩
  · intro err s' ⟨refusal, near⟩
    exact ⟨refusal, near.later, near.good good⟩

theorem advancesGet {f : Session → Build β} (h : Advances (f s) s R) : Advances (get >>= f) s R := by
  unfold Advances
  rw [Build.endsBind, Build.endsGet]
  exact h

theorem Build.endsOpen {E : Error → Session → Prop} {Q : Unit → Session → Prop} (open_ : s.built = false) :
    Ends Build.checkOpen s E Q ↔ Q () s := by
  unfold Build.checkOpen
  rw [Build.endsBind, Build.endsGet, open_]
  exact Iff.rfl

theorem Build.endsAddUnit {u : UnitDraft} {E : Error → Session → Prop} {Q : Unit → Session → Prop}
    (open_ : s.built = false) (refused : ∀ c : Cause, c.isInternal = false → s.Full ∨ s.contains u.name = true → E (.of c) s)
    (accepted : ¬ s.Full → s.contains u.name = false →
      Q () { s with names := u.name :: s.names, units := s.units ++ [u] }) : Ends (Build.addUnit u) s E Q := by
  unfold Build.addUnit
  rw [Build.endsBind, Build.endsOpen open_, Build.endsBind, Build.endsGet]
  by_cases full : s.config.maxUnits ≤ s.units.length
  · simp only [full, if_true]
    exact refused _ rfl (.inl full)
  · simp only [full, if_false]
    cases there : s.contains u.name with
    | true => exact refused _ rfl (.inr there)
    | false => exact accepted full there

theorem advancesFrames {f : Frames → α × Frames} (good : s.Good) (grows : s.frames.Grows (f s.frames).2)
    (regular : ∀ l, (f s.frames).2.Has l → s.frames.Has l ∨ l.type.Regular s.Knows)
    (h : P (f s.frames).1 { s with frames := (f s.frames).2 }) : Advances (Build.withFrames f) s P := by
  have later : s.Later { s with frames := (f s.frames).2 } := { Session.Later.refl s with frames := grows }
  exact ⟨h, later, good.keep later rfl rfl rfl rfl rfl (fun _ _ h => .inl h) regular good.constants⟩

theorem advancesChild (good : s.Good) (parent : FrameId) :
    Advances (Build.newChild parent) s fun f s' => f = s.frames.table.size ∧
      s'.frames.table.size = s.frames.table.size + 1 ∧ s'.Knows = s.Knows :=
  advancesFrames good (s.frames.pushGrows _) (fun _ has => .inl (Frames.pushInv rfl has))
    ⟨rfl, Array.size_push .., rfl⟩

theorem advancesTemp (good : s.Good) {f : FrameId} (low : f < s.frames.table.size) (stem : String) {t : Ty}
    (regular : t.Regular s.Knows) :
    Advances (Build.temp f stem t) s fun l s' => l.frame = f ∧ l.type = t ∧ s'.frames.Has l ∧
      l.index = (s.frames.frame f).locals.length ∧ s'.frames.table.size = s.frames.table.size := by
  obtain ⟨frame, type, index⟩ := s.frames.tempIs f stem t
  refine advancesFrames good (s.frames.tempGrows f stem t) ?_ ⟨frame, type, Frames.tempHas low stem t, index,
    s.frames.tempSize f stem t⟩
  intro l has
  rcases Frames.tempInv low has with old | rfl
  · exact .inl old
  · exact .inr regular

end

section

variable {s : Session}

theorem hoistIs (h : Heap) {c : Constants} (numbered : c.Numbered) (type : Ty) (v : Value) :
    (∃ k ∈ (c.hoist h type v).2.hoisted, (c.hoist h type v).1 = ⟨type, Emit.op (.getStatic k.field)⟩ ∧ k.type = type) ∧
      (c.hoist h type v).2.Numbered ∧ c.hoisted <+: (c.hoist h type v).2.hoisted := by
  unfold Constants.hoist
  cases shared : c.shared? h type v with
  | some k =>
    have inside := List.mem_of_find?_eq_some shared
    have same : k.type = type := by
      have tested := List.find?_some shared
      simp only [Bool.and_eq_true, decide_eq_true_eq] at tested
      exact tested.1.1
    exact ⟨⟨k, inside, rfl, same⟩, numbered, List.prefix_refl _⟩
  | none =>
    refine ⟨⟨_, List.mem_append_right _ List.mem_cons_self, rfl, rfl⟩, ?_, List.prefix_append _ _⟩
    intro i k at_
    rw [List.getElem?_append] at at_
    split at at_
    · exact numbered i k at_
    · next beyond =>
      have last : i = c.size := by
        have low := (List.getElem?_eq_some_iff.1 at_).1
        simp only [List.length_singleton] at low
        unfold Constants.size
        omega
      subst last
      simp only [Constants.size, Nat.sub_self, List.getElem?_cons_zero, Option.some.injEq] at at_
      rw [← at_]
      rfl

def Constants.inline? : Value → Option Value
  | .boxed b => some (unboxed b)
  | .int v => some (.int v)
  | .long v => some (.long v)
  | .float v => some (.float v)
  | .double v => some (.double v)
  | .string v => some (.string v)
  | _ => none

theorem constantAdvances (good : s.Good) (v : Value) : Advances (Build.constant v) s fun x s' =>
    x = .null .any ∨ (∃ w, Constants.inline? v = some w ∧ x = .literal w (s.heap.literalType v)) ∨
      ∃ k ∈ s'.constants.hoisted, x = ⟨k.type, Emit.op (.getStatic k.field)⟩ ∧ k.type = s.heap.literalType v := by
  have unchanged : ∀ x, s.constants.literal s.heap v = (x, s.constants) → Advances (Build.constant v) s fun x' _ => x' = x := by
    intro x is
    unfold Advances Build.constant
    rw [Build.endsBind, Build.endsGet, is]
    exact ⟨rfl, .refl s, good⟩
  have hoisted : s.constants.literal s.heap v = s.constants.hoist s.heap (s.heap.literalType v) v →
      Advances (Build.constant v) s fun x s' => ∃ k ∈ s'.constants.hoisted,
        x = ⟨k.type, Emit.op (.getStatic k.field)⟩ ∧ k.type = s.heap.literalType v := by
    intro is
    obtain ⟨⟨k, inside, made, same⟩, numbered, longer⟩ := hoistIs s.heap good.constants (s.heap.literalType v) v
    unfold Advances Build.constant
    rw [Build.endsBind, Build.endsGet, is]
    generalize s.constants.hoist s.heap (s.heap.literalType v) v = r at *
    have later : s.Later { s with constants := r.2 } := by
      refine { Session.Later.refl s with constants := longer, knows := ?_ }
      intro cls known
      refine known.imp id (Or.imp id ?_)
      intro ⟨is, before⟩
      refine ⟨is, ?_⟩
      intro empty
      rw [empty] at longer
      exact before (List.prefix_nil.1 longer)
    refine ⟨⟨k, inside, ?_, same⟩, later, good.keep later rfl rfl rfl rfl rfl (fun _ _ h => .inl h) (fun _ h => .inl h)
      numbered⟩
    rw [made, same]
  cases v with
  | null => exact (unchanged _ rfl).mono fun _ _ _ _ is => .inl is
  | boxed b => exact (unchanged _ rfl).mono fun _ _ _ _ is => .inr (.inl ⟨_, rfl, is⟩)
  | int v => exact (unchanged _ rfl).mono fun _ _ _ _ is => .inr (.inl ⟨_, rfl, is⟩)
  | long v => exact (unchanged _ rfl).mono fun _ _ _ _ is => .inr (.inl ⟨_, rfl, is⟩)
  | float v => exact (unchanged _ rfl).mono fun _ _ _ _ is => .inr (.inl ⟨_, rfl, is⟩)
  | double v => exact (unchanged _ rfl).mono fun _ _ _ _ is => .inr (.inl ⟨_, rfl, is⟩)
  | string v => exact (unchanged _ rfl).mono fun _ _ _ _ is => .inr (.inl ⟨_, rfl, is⟩)
  | _ => exact (hoisted rfl).mono fun _ _ _ _ is => .inr (.inr is)

end

namespace Struct

variable {s : Session} {fields : List (String × Ty)}

theorem unitKept (cls : String) (type : Ty) (made : Frames) : (unit cls fields type made).1.name = cls ∧
    (unit cls fields type made).1.isEmpty = false ∧ (unit cls fields type made).1.prepare = [] ∧
    ∀ m ∈ (unit cls fields type made).1.methods, m.ref.returns = m.returns.rep := by
  obtain ⟨_, _, _, _, _, _, _, methods⟩ := unitMethods cls fields type made
  refine ⟨rfl, ?_, rfl, ?_⟩
  · unfold UnitDraft.isEmpty
    rw [methods]
    simp
  · rw [methods]
    simp only [List.mem_cons, List.not_mem_nil, or_false]
    rintro m (rfl | rfl | rfl | rfl) <;> rfl

def nextType (s : Session) (fields : List (String × Ty)) : Ty := .struct false (unitName s.structCount) fields

structure Fresh (s : Session) (fields : List (String × Ty)) (u : UnitDraft × Frames) : Prop where
  name : u.1.name = unitName s.structCount
  filled : u.1.isEmpty = false
  unprepared : u.1.prepare = []
  typed : ∀ m ∈ u.1.methods, m.ref.returns = m.returns.rep
  grows : s.frames.Grows u.2
  ready : ∀ knows : String → Prop, knows (unitName s.structCount) → (∀ f ∈ fields, f.2.Regular knows) →
    ∀ m ∈ u.1.methods, m.Ready (fun _ => False) knows u.2 fun _ _ _ => True
  regular : ∀ knows : String → Prop, knows (unitName s.structCount) → (∀ f ∈ fields, f.2.Regular knows) →
    ∀ l, u.2.Has l → s.frames.Has l ∨ l.type.Regular knows

theorem unitFresh (s : Session) (fields : List (String × Ty)) :
    Fresh s fields (unit (unitName s.structCount) fields (nextType s fields) s.frames) := by
  obtain ⟨name, filled, unprepared, typed⟩ := unitKept (unitName s.structCount) (nextType s fields) s.frames
  exact ⟨name, filled, unprepared, typed, unitGrows, fun knows known all => unitReady known (fun f inside => (all f inside).sized) rfl,
    fun knows known all l has => unitRegular (.struct known all) all has⟩

def announced (s : Session) (fields : List (String × Ty)) (u : UnitDraft × Frames) : Session :=
  { s with
    frames := u.2
    structs := s.structs ++ [(fields, nextType s fields)]
    structCount := s.structCount + 1 }

def added (s : Session) (fields : List (String × Ty)) (u : UnitDraft × Frames) : Session :=
  { announced s fields u with
    names := u.1.name :: s.names
    units := s.units ++ [u.1] }

variable {u : UnitDraft × Frames}

theorem announcedLater (fresh : Fresh s fields u) : s.Later (announced s fields u) :=
  { Session.Later.refl s with frames := fresh.grows, structs := List.prefix_append _ _ }

theorem addedKnows (fresh : Fresh s fields u) : (added s fields u).Knows (unitName s.structCount) :=
  .inr (.inl ⟨u.1, List.mem_append_right _ List.mem_cons_self, fresh.name⟩)

theorem addedLater (fresh : Fresh s fields u) : s.Later (added s fields u) := by
  refine { Session.Later.refl s with frames := fresh.grows, structs := List.prefix_append _ _, knows := ?_ }
  intro cls known
  rcases known with full | ⟨u, inside, is⟩ | constant
  · exact .inl (Nat.le_trans full (by simp [added]))
  · exact .inr (.inl ⟨u, List.mem_append_left _ inside, is⟩)
  · exact .inr (.inr constant)

theorem structsKept {s' : Session} (good : s.Good) (later : s.Later s') (known : s'.Knows (unitName s.structCount))
    (all : ∀ f ∈ fields, f.2.Regular s'.Knows) :
    ∀ p ∈ s.structs ++ [(fields, nextType s fields)], (∃ cls, p.2 = .struct false cls p.1) ∧ p.2.Regular s'.Knows := by
  intro p inside
  rcases List.mem_append.1 inside with old | new
  · obtain ⟨is, regular⟩ := good.structs p old
    exact ⟨is, regular.mono later.knows⟩
  · rw [List.mem_singleton.1 new]
    exact ⟨⟨_, rfl⟩, .struct known all⟩

theorem announcedGood (good : s.Good) (fresh : Fresh s fields u) (full : s.Full)
    (all : ∀ f ∈ fields, f.2.Regular s.Knows) : (announced s fields u).Good where
  unbuilt := good.unbuilt
  units v inside := (good.units v inside).mono (fun _ h => h) fresh.grows
  numbered v inside := by
    obtain ⟨n, low, is⟩ := good.numbered v inside
    exact ⟨n, Nat.lt_succ_of_lt low, is⟩
  distinct := good.distinct
  names := good.names
  structs := structsKept good (announcedLater fresh) (.inl full) all
  types := good.types
  locals l has := (fresh.regular _ (.inl full) all l has).elim (good.locals l) id
  constants := good.constants

theorem addedGood (good : s.Good) (fresh : Fresh s fields u) (all : ∀ f ∈ fields, f.2.Regular s.Knows) :
    (added s fields u).Good where
  unbuilt := good.unbuilt
  units v inside := by
    have later := addedLater fresh
    rcases List.mem_append.1 inside with old | new
    · exact (good.units v old).mono later.knows later.frames
    · rw [List.mem_singleton.1 new]
      exact ⟨fresh.ready _ (addedKnows fresh) fun f inside => (all f inside).mono later.knows, fresh.typed, fresh.filled,
        fresh.unprepared⟩
  numbered v inside := by
    rcases List.mem_append.1 inside with old | new
    · obtain ⟨n, low, is⟩ := good.numbered v old
      exact ⟨n, Nat.lt_succ_of_lt low, is⟩
    · rw [List.mem_singleton.1 new]
      exact ⟨_, Nat.lt_succ_self _, fresh.name⟩
  distinct := by
    change ((s.units ++ [u.1]).map (·.name)).Nodup
    rw [List.map_append, List.nodup_append]
    refine ⟨good.distinct, by simp, ?_⟩
    intro a old b new same
    obtain ⟨v, inside, rfl⟩ := List.mem_map.1 old
    obtain ⟨n, low, is⟩ := good.numbered v inside
    have last : b = u.1.name := List.mem_singleton.1 new
    rw [last, fresh.name] at same
    exact Nat.ne_of_lt low (unitNameInj (is.symm.trans same))
  names name inside := by
    rcases List.mem_cons.1 inside with rfl | old
    · exact ⟨u.1, List.mem_append_right _ List.mem_cons_self, rfl⟩
    · obtain ⟨v, member, is⟩ := good.names name old
      exact ⟨v, List.mem_append_left _ member, is⟩
  structs := structsKept good (addedLater fresh) (addedKnows fresh) fun f inside => (all f inside).mono (addedLater fresh).knows
  types c p inside := (good.types c p inside).mono (addedLater fresh).knows
  locals l has := by
    have later := addedLater fresh
    rcases fresh.regular _ (addedKnows fresh) (fun f inside => (all f inside).mono later.knows) l has with old | new
    · exact (good.locals l old).mono later.knows
    · exact new
  constants := good.constants

theorem freshName (good : s.Good) (fresh : Fresh s fields u) : s.contains u.1.name = false := by
  unfold Session.contains
  rw [List.contains_eq_mem, decide_eq_false_iff_not, fresh.name]
  intro inside
  obtain ⟨v, member, same⟩ := good.names _ inside
  obtain ⟨n, low, is⟩ := good.numbered v member
  exact Nat.ne_of_lt low (unitNameInj (is.symm.trans same))

theorem typeAdvances (good : s.Good) (all : ∀ f ∈ fields, f.2.Regular s.Knows) :
    Advances (type fields) s fun t s' => (fields, t) ∈ s'.structs ∧ (∃ cls, t = .struct false cls fields) ∧
      t.Regular s'.Knows := by
  unfold type Advances
  rw [Build.endsBind, Build.endsOpen good.unbuilt]
  split
  · exact ⟨rfl, .refl s, good⟩
  · rw [Build.endsBind, Build.endsGet]
    cases known : s.structs.lookup fields with
    | some t =>
      obtain ⟨l₁, l₂, same, _⟩ := List.lookup_eq_some_iff.1 known
      have inside : (fields, t) ∈ s.structs := by simp [same]
      obtain ⟨is, regular⟩ := good.structs (fields, t) inside
      exact ⟨⟨inside, is, regular⟩, .refl s, good⟩
    | none =>
      have fresh := unitFresh s fields
      simp only [unitName, nextType] at fresh
      generalize made : unit (unitStem ++ toString s.structCount) fields
        (.struct false (unitStem ++ toString s.structCount) fields) s.frames = u at fresh
      simp only [made, Build.endsBind, Build.endsSet]
      change Ends (Build.addUnit u.1) (announced s fields u) _ _
      refine Build.endsAddUnit good.unbuilt ?_ ?_
      · intro c refusal why
        have new : s.contains u.1.name = false := freshName good fresh
        have full : s.Full := why.resolve_right fun there => Bool.false_ne_true (new.symm.trans there)
        exact ⟨refusal, announcedLater fresh, announcedGood good fresh full all⟩
      · intro _ _
        exact ⟨⟨List.mem_append_right _ List.mem_cons_self, ⟨_, rfl⟩,
            .struct (addedKnows fresh) fun f inside => (all f inside).mono (addedLater fresh).knows⟩,
          addedLater fresh, addedGood good fresh all⟩

end Struct

namespace ValueType

mutual

def Valued : ValueType → Prop
  | .void => False
  | .array t | .optional t => Valued t
  | .map k v => Valued k ∧ Valued v
  | .struct _ fs => ValuedFields fs
  | .union ts => ValuedMembers ts
  | .scalar _ | .string | .bytes | .timestamp | .any => True

def ValuedFields : List (String × ValueType) → Prop
  | [] => True
  | (_, t) :: rest => Valued t ∧ ValuedFields rest

def ValuedMembers : List ValueType → Prop
  | [] => True
  | t :: rest => Valued t ∧ ValuedMembers rest

end

end ValueType

namespace Resolve

variable {s : Session} {c : ContextId}

theorem knownResolves (good : s.Good) {t : ValueType} {type : Ty} (known : s.types.value? c t = some type) :
    t.Resolves s.Knows type := by
  obtain ⟨d, inside⟩ := Registry.valueInv known
  exact good.types d (t, type) inside

theorem learnAdvances (good : s.Good) {t : ValueType} {type : Ty} (resolves : t.Resolves s.Knows type) :
    Advances (do
      modify fun s => { s with types := s.types.learnValue c t type }
      return type : Build Ty) s fun type s' => t.Resolves s'.Knows type := by
  have later : s.Later { s with types := s.types.learnValue c t type } := { Session.Later.refl s with }
  refine ⟨resolves, later, good.keep later rfl rfl rfl rfl rfl ?_ (fun _ h => .inl h) good.constants⟩
  intro i p inside
  rcases Registry.learnInv inside with rfl | old
  · exact .inr resolves
  · exact .inl old

theorem makeAdvances (good : s.Good) {t : ValueType} {x : Build Ty}
    (made : Advances x s fun type s' => t.Resolves s'.Knows type) :
    Advances (do
      match (← get).types.value? c t with
      | some type => return type
      | none => x) s fun type s' => t.Resolves s'.Knows type := by
  refine advancesGet ?_
  cases known : s.types.value? c t with
  | some type => exact advancesPure good (knownResolves good known)
  | none => exact made

theorem rememberAdvances (good : s.Good) {t : ValueType} {type : Ty} (resolves : t.Resolves s.Knows type) :
    Advances (do
      let type ← pure type
      modify fun s => { s with types := s.types.learnValue c t type }
      return type : Build Ty) s fun type s' => t.Resolves s'.Knows type :=
  advancesBind (advancesPure good resolves) fun _ _ _ good resolves => learnAdvances good resolves

mutual

theorem valueAdvances (t : ValueType) (valued : t.Valued) {s : Session} (good : s.Good) :
    Advances (value c t) s fun type s' => t.Resolves s'.Knows type := by
  cases t with
  | void => exact valued.elim
  | scalar p =>
    rw [value]
    exact advancesPure good ⟨.prim, fun _ same => congrArg Ty.prim (ValueType.scalar.inj same), nofun⟩
  | string =>
    rw [value]
    · exact makeAdvances good (rememberAdvances good ⟨.atom, nofun, nofun⟩)
    · exact nofun
  | bytes =>
    rw [value]
    · exact makeAdvances good (rememberAdvances good ⟨.atom, nofun, nofun⟩)
    · exact nofun
  | timestamp =>
    rw [value]
    · exact makeAdvances good (rememberAdvances good ⟨.atom, nofun, nofun⟩)
    · exact nofun
  | any =>
    rw [value]
    · exact makeAdvances good (rememberAdvances good ⟨.atom, nofun, nofun⟩)
    · exact nofun
  | array e =>
    rw [value]
    · refine makeAdvances good (advancesBind (valueAdvances e valued good) ?_)
      intro type s' _ good resolves
      exact rememberAdvances good ⟨resolves.regular.listOf.withNull false, nofun, nofun⟩
    · exact nofun
  | map k v =>
    rw [value]
    · refine makeAdvances good (advancesBind (valueAdvances k valued.1 good) ?_)
      intro key s₁ _ good key
      refine advancesBind (valueAdvances v valued.2 good) ?_
      intro value s₂ later good value
      exact rememberAdvances good ⟨(key.mono later.knows).regular.mapOf value.regular |>.withNull false, nofun, nofun⟩
    · exact nofun
  | struct closed fs =>
    rw [value]
    · cases closed with
      | false => exact makeAdvances good (rememberAdvances good ⟨.atom, nofun, nofun⟩)
      | true =>
        refine makeAdvances good (advancesBind (fieldsAdvances fs valued good) ?_)
        intro types s₁ _ good all
        refine advancesBind (Struct.typeAdvances good all) ?_
        intro type s₂ _ good ⟨_, _, regular⟩
        exact rememberAdvances good ⟨regular.withNull false, nofun, nofun⟩
    · exact nofun
  | optional e =>
    rw [value]
    · refine makeAdvances good (advancesBind (valueAdvances e valued good) ?_)
      intro type s' _ good resolves
      refine rememberAdvances good ⟨resolves.regular.boxed.withNull true, nofun, ?_⟩
      intro p same
      rw [resolves.scalar p (ValueType.optional.inj same)]
      rfl
    · exact nofun
  | union ts =>
    rw [value]
    · refine makeAdvances good (advancesBind (membersAdvances ts valued good) ?_)
      intro types s₁ _ good all
      refine advancesBind (advancesSteady good (steadyLift (P := fun t => t.Regular s₁.Knows) ?_ ?_)) ?_
      · intro err failed
        unfold Ty.unifyAll at failed
        split at failed
        · cases failed
          rfl
        · contradiction
      · intro type made
        exact Ty.regularHereditary.unifyAll all made
      · intro type s₂ later good regular
        exact learnAdvances good ⟨regular.mono later.knows, nofun, nofun⟩
    · exact nofun

theorem fieldsAdvances (fs : List (String × ValueType)) (valued : ValueType.ValuedFields fs) {s : Session} (good : s.Good) :
    Advances (fields c fs) s fun r s' => ∀ f ∈ r, f.2.Regular s'.Knows := by
  cases fs with
  | nil =>
    rw [fields]
    exact advancesPure good nofun
  | cons f rest =>
    obtain ⟨name, t⟩ := f
    rw [fields]
    refine advancesBind (valueAdvances t valued.1 good) ?_
    intro type s₁ _ good first
    refine advancesBind (fieldsAdvances rest valued.2 good) ?_
    intro types s₂ later good all
    refine advancesPure good ?_
    intro f inside
    rcases List.mem_cons.1 inside with rfl | other
    · exact first.regular.mono later.knows
    · exact all f other

theorem membersAdvances (ts : List ValueType) (valued : ValueType.ValuedMembers ts) {s : Session} (good : s.Good) :
    Advances (members c ts) s fun r s' => ∀ t ∈ r, t.Regular s'.Knows := by
  cases ts with
  | nil =>
    rw [members]
    exact advancesPure good nofun
  | cons t rest =>
    rw [members]
    refine advancesBind (valueAdvances t valued.1 good) ?_
    intro type s₁ _ good first
    refine advancesBind (membersAdvances rest valued.2 good) ?_
    intro types s₂ later good all
    refine advancesPure good ?_
    intro t inside
    rcases List.mem_cons.1 inside with rfl | other
    · exact first.regular.mono later.knows
    · exact all t other

end

end Resolve

end QueryMachine
