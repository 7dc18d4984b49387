import QueryMachine.Proofs.Program.Entry

/-! Compilers from the first entry point to the finished program. Entry points are added one by one, each a method of
the same unit, and nothing but rendering them can fail in the end. -/
namespace QueryMachine

open Build (Ends)

theorem Session.newGood (config : Config) (heap : Heap) : (Session.new config heap).Good where
  unbuilt := rfl
  units := nofun
  numbered := nofun
  distinct := List.nodup_nil
  names := nofun
  structs := nofun
  types c p inside := by
    have none : (Registry.new.context c).values = [] := by
      unfold Registry.context Registry.new
      cases c <;> rfl
    change p ∈ (Registry.new.context c).values at inside
    rw [none] at inside
    contradiction
  locals l has := absurd has.frame (Nat.not_lt_zero _)
  constants := nofun

namespace Compiler

/-- Entry points added one after the other. One that is refused leaves the others as they are. -/
def addAll (c : Compiler) (es : List Entry) : Compiler := es.foldl (fun c e => (c.add e).2) c

structure Meets (R : Session → Signature → MethodDraft → Prop) (s : Session) (sig : Signature) (m : MethodDraft) :
    Prop where
  cls : m.ref.cls = unitName
  name : m.ref.name = sig.name
  typed : m.ref.returns = m.returns.rep
  related : R s sig m

structure Sound (R : Session → Signature → MethodDraft → Prop) (c : Compiler) : Prop where
  session : c.session.Good
  unit : c.unit = { UnitDraft.new unitName with methods := c.unit.methods }
  methods : List.Forall₂ (Meets R c.session) c.signatures c.unit.methods
  distinct : (c.signatures.map (·.name)).Nodup

variable {R : Session → Signature → MethodDraft → Prop} {c : Compiler}

theorem newSound (config : Config) (heap : Heap) : (new config heap).Sound R where
  session := Session.newGood config heap
  unit := rfl
  methods := .nil
  distinct := List.nodup_nil

def Lasts (R : Session → Signature → MethodDraft → Prop) : Prop :=
  ∀ s s' sig m, s.Later s' → R s sig m → R s' sig m

theorem Sound.later (sound : c.Sound R) (lasts : Lasts R) {s : Session} (later : c.session.Later s) (good : s.Good) :
    { c with session := s }.Sound R where
  session := good
  unit := sound.unit
  methods := sound.methods.imp fun _ _ meets =>
    ⟨meets.cls, meets.name, meets.typed, lasts _ _ _ _ later meets.related⟩
  distinct := sound.distinct

theorem Sound.names (sound : c.Sound R) : c.unit.methods.map (·.ref.name) = c.signatures.map (·.name) := by
  have all := sound.methods
  generalize c.signatures = sigs, c.unit.methods = ms at all
  induction all with
  | nil => rfl
  | cons first _ ih => rw [List.map_cons, List.map_cons, ih, first.name]

theorem addCases (c : Compiler) (e : Entry) :
    (∃ err s', c.add e = (.error err, { c with session := s' }) ∧ (s' = c.session ∨ s' = (method c.context e c.session).2)) ∨
    ∃ m types s' unit, method c.context e c.session = (.ok (m, types), s') ∧ c.unit.addMethod m = .ok unit ∧
      (∀ sig ∈ c.signatures, sig.name ≠ e.name) ∧
        c.add e = (.ok (), { c with session := s', unit, signatures := c.signatures ++ [⟨e.name, types, e.isStatement⟩] }) := by
  unfold add
  split
  · exact .inl ⟨_, c.session, rfl, .inl rfl⟩
  · next new =>
    rcases answer : method c.context e c.session with ⟨err | ⟨m, types⟩, s'⟩
    · rw [show (method c.context e).run c.session = _ from answer]
      exact .inl ⟨err, s', rfl, .inr rfl⟩
    · rw [show (method c.context e).run c.session = _ from answer]
      dsimp only
      cases added : c.unit.addMethod m with
      | error err => exact .inl ⟨err, s', rfl, .inr rfl⟩
      | ok unit =>
        refine .inr ⟨m, types, s', unit, rfl, added, ?_, rfl⟩
        intro sig inside same
        exact new (List.any_eq_true.2 ⟨sig, inside, by simp [same]⟩)

theorem addMethodIs {u unit : UnitDraft} {m : MethodDraft} (added : u.addMethod m = .ok unit) :
    unit = { u with methods := u.methods ++ [m] } := by
  unfold UnitDraft.addMethod at added
  split at added
  · contradiction
  · split at added
    · contradiction
    · exact (Except.ok.inj added).symm

theorem addContext (c : Compiler) (e : Entry) : (c.add e).2.context = c.context := by
  obtain ⟨_, _, is, _⟩ | ⟨_, _, _, _, _, _, _, is⟩ := c.addCases e <;> rw [is]

theorem addAllKeeps {P : Compiler → Prop} {es : List Entry} (keeps : ∀ c, ∀ e ∈ es, P c → P (c.add e).2) {c : Compiler}
    (holds : P c) : P (c.addAll es) := by
  unfold addAll
  induction es generalizing c with
  | nil => exact holds
  | cons e es ih =>
    exact ih (fun c x inside => keeps c x (List.mem_cons_of_mem e inside)) (keeps c e List.mem_cons_self holds)

theorem addAllContext (c : Compiler) (es : List Entry) : (c.addAll es).context = c.context :=
  addAllKeeps (P := fun c' => c'.context = c.context) (fun c' e _ same => (addContext c' e).trans same) rfl

theorem addSoundWhen {e : Entry} (sound : c.Sound R) (lasts : Lasts R)
    (goes : Advances (method c.context e) c.session fun _ _ => True)
    (made : (c.add e).1 = .ok () →
      Advances (method c.context e) c.session fun r s' => Meets R s' ⟨e.name, r.2, e.isStatement⟩ r.1) :
    (c.add e).2.Sound R ∧ c.session.Later (c.add e).2.session := by
  have kept : c.session.Later (method c.context e c.session).2 ∧ (method c.context e c.session).2.Good := by
    unfold Advances Ends at goes
    rcases answer : method c.context e c.session with ⟨err | r, s'⟩ <;>
    · rw [answer] at goes
      exact goes.2
  obtain ⟨err, s', is, which⟩ | ⟨m, types, s', unit, answer, added, new, is⟩ := c.addCases e
  · rw [is]
    obtain rfl | rfl := which
    · exact ⟨sound, .refl _⟩
    · exact ⟨sound.later lasts kept.1 kept.2, kept.1⟩
  · obtain ⟨meets, later, good⟩ := Ends.ok (made (by rw [is])) answer
    rw [is, addMethodIs added]
    have kept := sound.later lasts later good
    refine ⟨⟨good, ?_, ?_, ?_⟩, later⟩
    · have unit := sound.unit
      dsimp only
      rw [unit]
    · exact List.rel_append kept.methods (.cons meets .nil)
    · rw [List.map_append, List.nodup_append]
      refine ⟨sound.distinct, by simp, ?_⟩
      intro a old b last same
      obtain ⟨sig, inside, is⟩ := List.mem_map.1 old
      rw [List.map_singleton, List.mem_singleton] at last
      exact new sig inside (is.trans (same.trans last))

theorem addAllSoundWhen {es : List Entry} (sound : c.Sound R) (lasts : Lasts R)
    (goes : ∀ e ∈ es, ∀ s, s.Good → Advances (method c.context e) s fun _ _ => True)
    (made : ∀ before e after, es = before ++ e :: after → (c.addAll before).session.Good →
      ((c.addAll before).add e).1 = .ok () → Advances (method c.context e) (c.addAll before).session fun r s' =>
        Meets R s' ⟨e.name, r.2, e.isStatement⟩ r.1) :
    (c.addAll es).Sound R ∧ c.session.Later (c.addAll es).session := by
  induction es generalizing c with
  | nil => exact ⟨sound, .refl _⟩
  | cons e es ih =>
    rw [List.forall_mem_cons] at goes
    obtain ⟨first, later⟩ := addSoundWhen sound lasts (goes.1 _ sound.session) (made [] e es rfl sound.session)
    have more : ∀ before x after, es = before ++ x :: after → ((c.add e).2.addAll before).session.Good →
        (((c.add e).2.addAll before).add x).1 = .ok () → Advances (method (c.add e).2.context x)
          ((c.add e).2.addAll before).session fun r s' => Meets R s' ⟨x.name, r.2, x.isStatement⟩ r.1 := by
      intro before x after split
      rw [addContext]
      exact made (e :: before) x after (by rw [split, List.cons_append])
    obtain ⟨rest, longer⟩ := ih first (by rw [addContext]; exact goes.2) more
    exact ⟨rest, later.trans longer⟩

theorem addSound {e : Entry} (sound : c.Sound R) (lasts : Lasts R)
    (made : Advances (method c.context e) c.session fun r s' => Meets R s' ⟨e.name, r.2, e.isStatement⟩ r.1) :
    (c.add e).2.Sound R ∧ c.session.Later (c.add e).2.session :=
  addSoundWhen sound lasts (made.mono fun _ _ _ _ _ => trivial) fun _ => made

theorem addAllSound {es : List Entry} (sound : c.Sound R) (lasts : Lasts R)
    (made : ∀ e ∈ es, ∀ s, s.Good → Advances (method c.context e) s fun r s' => Meets R s' ⟨e.name, r.2, e.isStatement⟩ r.1) :
    (c.addAll es).Sound R ∧ c.session.Later (c.addAll es).session := by
  refine addAllSoundWhen sound lasts (fun e inside s good => (made e inside s good).mono fun _ _ _ _ _ => trivial) ?_
  intro before e after split good _
  exact made e (by rw [split]; simp) _ good

theorem addPairs (e : Entry) (length : c.signatures.length = c.unit.methods.length) :
    (c.add e).2.signatures.length = (c.add e).2.unit.methods.length ∧
      ∀ x ∈ c.signatures.zip c.unit.methods, x ∈ (c.add e).2.signatures.zip (c.add e).2.unit.methods := by
  obtain ⟨err, s', is, _⟩ | ⟨m, types, s', unit, _, added, _, is⟩ := c.addCases e
  · rw [is]
    exact ⟨length, fun _ inside => inside⟩
  · rw [is, addMethodIs added]
    dsimp only
    rw [List.zip_append length]
    exact ⟨by simp [length], fun _ inside => List.mem_append_left _ inside⟩

theorem addAllPairs (es : List Entry) (length : c.signatures.length = c.unit.methods.length) :
    ∀ x ∈ c.signatures.zip c.unit.methods, x ∈ (c.addAll es).signatures.zip (c.addAll es).unit.methods := by
  refine (addAllKeeps (P := fun c' => c'.signatures.length = c'.unit.methods.length ∧
    ∀ x ∈ c.signatures.zip c.unit.methods, x ∈ c'.signatures.zip c'.unit.methods) ?_ ⟨length, fun _ inside => inside⟩).2
  intro c' e _ ⟨length, before⟩
  obtain ⟨same, kept⟩ := addPairs e length
  exact ⟨same, fun x inside => kept x (before x inside)⟩

theorem addAllSplit (c : Compiler) (before after : List Entry) (e : Entry) :
    c.addAll (before ++ e :: after) = ((c.addAll before).add e).2.addAll after := by
  unfold addAll
  rw [List.foldl_append, List.foldl_cons]

theorem acceptedStands {e : Entry} {after : List Entry} (sound : c.Sound R) (lasts : Lasts R)
    (made : ∀ x ∈ e :: after, ∀ s, s.Good →
      Advances (method c.context x) s fun r s' => Meets R s' ⟨x.name, r.2, x.isStatement⟩ r.1)
    (accepted : (c.add e).1 = .ok ()) :
    ∃ m types s', method c.context e c.session = (.ok (m, types), s') ∧ s'.Later ((c.add e).2.addAll after).session ∧
      (⟨e.name, types, e.isStatement⟩, m) ∈
        ((c.add e).2.addAll after).signatures.zip ((c.add e).2.addAll after).unit.methods := by
  rw [List.forall_mem_cons] at made
  obtain ⟨second, _⟩ := addSound sound lasts (made.1 _ sound.session)
  have more : ∀ x ∈ after, ∀ s, s.Good → Advances (method (c.add e).2.context x) s fun r s' =>
      Meets R s' ⟨x.name, r.2, x.isStatement⟩ r.1 := by
    rw [addContext]
    exact made.2
  obtain ⟨_, later⟩ := addAllSound second lasts more
  obtain ⟨err, s', is, _⟩ | ⟨m, types, s', unit, answer, added, _, is⟩ := c.addCases e
  · rw [is] at accepted
    contradiction
  have pair : (⟨e.name, types, e.isStatement⟩, m) ∈ (c.add e).2.signatures.zip (c.add e).2.unit.methods := by
    rw [is, addMethodIs added]
    dsimp only
    rw [List.zip_append sound.methods.length_eq]
    exact List.mem_append_right _ List.mem_cons_self
  have same : (c.add e).2.session = s' := by rw [is]
  exact ⟨m, types, s', answer, same ▸ later, addAllPairs after second.methods.length_eq _ pair⟩

def Lowered.method (l : Compiler.Lowered) (isStatement : Bool) : MethodDraft :=
  l.draft.withValue (if isStatement then Build.outcome l.value else l.value)

def Wrapped (isStatement : Bool) (K : Slots → Asm → Prop) (t : Ty) : Slots → Asm → List Handler → Prop :=
  if isStatement then Attempted K t else Returned K t

theorem methodPrepared {Z : MethodDraft → Account} {context : ContextId} {e : Entry} {s : Session}
    (lowers : Advances (lower context e) s fun l s' => Prepared Z e s' l) :
    Advances (method context e) s fun r s' => ∃ l, Prepared Z e s' l ∧ r = (l.method e.isStatement, l.types) := by
  unfold method
  refine advancesBind lowers ?_
  intro l s' _ good prepared
  exact advancesPure good ⟨l, prepared, rfl⟩

theorem methodAdvances {Z : MethodDraft → Account} {context : ContextId} {e : Entry} {s : Session} (hosts : Hosts Z)
    (good : s.Good) (valued : ∀ p ∈ e.params, p.2.Valued)
    (lowers : ∀ m, (Z m).Lowers (fun _ => False) (Lowering.ofNode e.node)) :
    Advances (method context e) s fun r s' => ∃ l, Prepared Z e s' l ∧ r = (l.method e.isStatement, l.types) := by
  refine methodPrepared ?_
  rw [lowerIs]
  exact lowerAdvances hosts good valued lowers

theorem Drafted.meets {e : Entry} {s : Session} {l : Compiler.Lowered} {params : List Ty}
    (drafted : Drafted e s l.draft l.types) (related : R s ⟨e.name, params, e.isStatement⟩ (l.method e.isStatement)) :
    Meets R s ⟨e.name, params, e.isStatement⟩ (l.method e.isStatement) where
  cls := drafted.cls
  name := drafted.name
  typed := by
    change l.draft.ref.returns = l.draft.returns.rep
    rw [drafted.typed, drafted.returns]
  related := related

theorem bodyVisible {s : Session} {f : FrameId} {fs : Frames} (grows : s.frames.Grows fs) :
    Visible f [] s.frames fs (Slots.body fs f) := by
  refine ⟨grows, ?_, nofun⟩
  intro p frame has
  obtain ⟨slot, holds, _⟩ := enteredHolds (σ := ⟨[], 0⟩) has
  rw [frame] at holds
  exact ⟨slot, holds⟩

theorem Drafted.fills {E : Error → Prop} {K : Slots → Asm → Prop} {e : Entry} {s : Session} {l : Compiler.Lowered}
    (drafted : Drafted e s l.draft l.types) (writes : l.value.Writes E s.Knows (Visible l.draft.frame [] s.frames) K) :
    ∃ body, (l.method false).body = some body ∧ body.Fills E s.Knows (Visible l.draft.frame [] s.frames)
      (l.method false).returns.width (Returned K l.value.type) := by
  refine ⟨Seq.ret l.value .any, ?_, ?_⟩
  · exact congrArg (fun t => some (Seq.ret l.value t)) drafted.returns
  · have width : (l.method false).returns.width = 1 := congrArg Ty.width drafted.returns
    rw [width]
    exact valueFills writes

theorem Drafted.ready {E : Error → Prop} {K : Slots → Asm → Prop} {e : Entry} {s : Session} {l : Compiler.Lowered}
    (drafted : Drafted e s l.draft l.types) (writes : l.value.Writes E s.Knows (Visible l.draft.frame [] s.frames) K)
    (isStatement : Bool) : (l.method isStatement).Ready E s.Knows s.frames (Wrapped isStatement K l.value.type) := by
  cases isStatement with
  | false =>
    obtain ⟨_, body, fills⟩ := drafted.fills writes
    exact MethodDraft.readyOf body fills fun _ => bodyVisible
  | true =>
    have body : (l.method true).body = some (Seq.ret (Build.outcome l.value) .any) :=
      congrArg (fun t => some (Seq.ret (Build.outcome l.value) t)) drafted.returns
    have width : (l.method true).returns.width = 1 := congrArg Ty.width drafted.returns
    refine MethodDraft.readyOf body ?_ fun _ => bodyVisible
    rw [width]
    exact outcomeFills writes

theorem Drafted.roomy {E : Error → Prop} {K : Slots → Asm → Prop} {e : Entry} {s : Session} {l : Compiler.Lowered}
    (drafted : Drafted e s l.draft l.types) (writes : l.value.Writes E s.Knows (Visible l.draft.frame [] s.frames) K) :
    (l.method false).Roomy s.frames := by
  obtain ⟨_, body, fills⟩ := drafted.fills writes
  exact MethodDraft.roomyOf body fills fun _ => bodyVisible

theorem Prepared.ready {Z : MethodDraft → Account} {e : Entry} {s : Session} {l : Compiler.Lowered} (hosts : Hosts Z)
    (prepared : Prepared Z e s l) (isStatement : Bool) :
    (l.method isStatement).Ready (Z l.draft).refuses s.Knows s.frames
      (Wrapped isStatement ((Z l.draft).tells s [] l.value.type) l.value.type) := by
  refine prepared.drafted.ready ?_ isStatement
  rw [← hosts.root]
  exact prepared.value

/-! ### Building -/

/-- The session in which the program's unit stands beside the others. -/
def closing (c : Compiler) : Session :=
  { c.session with names := c.unit.name :: c.session.names, units := c.session.units ++ [c.unit] }

theorem unitNameFresh (good : c.session.Good) : c.session.contains unitName = false := by
  unfold Session.contains
  rw [List.contains_eq_mem, decide_eq_false_iff_not]
  intro inside
  obtain ⟨u, member, same⟩ := good.names _ inside
  obtain ⟨n, _, is⟩ := good.numbered u member
  have first := congrArg (fun x => x.toList.head?) (same.symm.trans is)
  simp [unitName, Struct.unitName, Struct.unitStem] at first

theorem namesApart (n : Nat) : Struct.unitName n ≠ unitName ∧ Struct.unitName n ≠ Constants.unitName := by
  constructor <;>
  · intro same
    have first := congrArg (fun x => x.toList.head?) same
    simp [unitName, Struct.unitName, Struct.unitStem, Constants.unitName] at first

theorem hoistedDistinct {k : Constants} (numbered : k.Numbered) : (k.hoisted.map (·.field.name)).Nodup := by
  refine List.pairwise_iff_getElem.2 ?_
  intro i j low low' before same
  rw [List.length_map] at low low'
  rw [List.getElem_map, List.getElem_map, numbered i _ (List.getElem?_eq_getElem low),
    numbered j _ (List.getElem?_eq_getElem low')] at same
  exact Nat.ne_of_lt before (numberInj (String.append_right_inj "c" |>.1 same))

theorem constantsMember {k : Constants} {u : UnitDraft} : u ∈ (Load.constantsUnit? k).toList ↔ k.hoisted ≠ [] ∧
    u = { UnitDraft.new Constants.unitName with
      statics := k.hoisted.map fun k => (k.field.name, k.type)
      prepare := k.hoisted.map fun k => (k.field.name, k.value) } := by
  unfold Load.constantsUnit?
  cases none : k.hoisted with
  | nil => simp
  | cons x xs => simp

theorem closingUnits {u : UnitDraft} (inside : u ∈ Load.unitsOf c.closing) :
    u ∈ c.session.units ∨ u = c.unit ∨ u ∈ (Load.constantsUnit? c.session.constants).toList := by
  unfold Load.unitsOf at inside
  have member := (List.mem_filter.1 inside).1
  simp only [closing, List.mem_append, List.mem_singleton, or_assoc] at member
  exact member

theorem knownLoaded (sound : c.Sound R) (room : ¬ c.session.Full) {cls : String} (known : c.session.Knows cls) :
    ∃ d ∈ Load.unitsOf c.closing, d.name = cls := by
  obtain full | ⟨u, inside, is⟩ | ⟨is, some⟩ := known
  · contradiction
  · refine ⟨u, List.mem_filter.2 ⟨?_, ?_⟩, is⟩
    · exact List.mem_append_left _ (List.mem_append_left _ inside)
    · rw [(sound.session.units u inside).filled]
      rfl
  · refine ⟨_, List.mem_filter.2 ⟨List.mem_append_right _ (constantsMember.2 ⟨some, rfl⟩), ?_⟩, is.symm⟩
    simpa [UnitDraft.isEmpty, UnitDraft.new, closing] using some

theorem closingComplete {E : Error → Prop} (sound : c.Sound R) (room : ¬ c.session.Full)
    (ready : ∀ s sig m, R s sig m → m.Ready E s.Knows s.frames fun _ _ _ => True) : Load.Complete E c.closing where
  unbuilt := sound.session.unbuilt
  ready u inside m member := by
    have known : ∀ cls, c.session.Knows cls → ∃ d ∈ Load.unitsOf c.closing, d.name = cls :=
      fun _ => knownLoaded sound room
    obtain old | rfl | constants := closingUnits inside
    · exact ((sound.session.units u old).ready m member).mono (fun _ never => never.elim) known (.refl _) fun _ _ _ h => h
    · obtain ⟨sig, _, meets⟩ := Load.pairedLeft sound.methods member
      exact (ready _ _ _ meets.related).mono (fun _ h => h) known (.refl _) fun _ _ _ h => h
    · rw [(constantsMember.1 constants).2] at member
      contradiction
  distinct := by
    have whole : ((c.closing.units ++ (Load.constantsUnit? c.closing.constants).toList).map (·.name)).Nodup := by
      have name : c.unit.name = unitName := by rw [sound.unit]; rfl
      have structs : ∀ a ∈ c.session.units.map (·.name), ∃ n, a = Struct.unitName n := by
        intro a inside
        obtain ⟨u, member, rfl⟩ := List.mem_map.1 inside
        obtain ⟨n, _, is⟩ := sound.session.numbered u member
        exact ⟨n, is⟩
      simp only [closing, List.append_assoc, List.map_append, List.map_singleton, name]
      refine List.nodup_append.2 ⟨sound.session.distinct, ?_, ?_⟩
      · unfold Load.constantsUnit?
        split
        · simp
        · change [unitName, Constants.unitName].Nodup
          decide
      · intro a old b new same
        obtain ⟨n, is⟩ := structs a old
        rw [List.singleton_append, List.mem_cons] at new
        obtain rfl | constants := new
        · exact (namesApart n).1 (is.symm.trans same)
        · obtain ⟨u, member, rfl⟩ := List.mem_map.1 constants
          rw [(constantsMember.1 member).2] at same
          exact (namesApart n).2 (is.symm.trans same)
    exact whole.sublist (List.filter_sublist.map _)
  values u inside := by
    obtain old | rfl | constants := closingUnits inside
    · rw [(sound.session.units u old).unprepared]
      exact List.nodup_nil
    · rw [sound.unit]
      exact List.nodup_nil
    · rw [(constantsMember.1 constants).2]
      simpa [List.map_map, Function.comp_def] using hoistedDistinct sound.session.constants
  slots u inside x member := by
    obtain old | rfl | constants := closingUnits inside
    · rw [(sound.session.units u old).unprepared] at member
      contradiction
    · rw [sound.unit] at member
      contradiction
    · rw [(constantsMember.1 constants).2] at member ⊢
      obtain ⟨k, hoisted, rfl⟩ := List.mem_map.1 member
      simp only [List.map_map, List.mem_map, Function.comp_apply]
      exact ⟨k, hoisted, rfl⟩

structure Builds (c : Compiler) (p : Program) (w : World) : Prop where
  loaded : Load.Holds c.closing ⟨p.library, w⟩
  entries : ∀ sig m, (sig, m) ∈ c.signatures.zip c.unit.methods → ∃ method,
    m.render c.session.frames c.session.heap c.session.config.verify = .ok method ∧
      p.entry? sig.name = some ⟨sig.name, method, sig.params, sig.isStatement, c.session.config.timeout?⟩

theorem unitMember {m : MethodDraft} (inside : m ∈ c.unit.methods) : c.unit ∈ Load.unitsOf c.closing := by
  refine List.mem_filter.2 ⟨List.mem_append_left _ (List.mem_append_right _ List.mem_cons_self), ?_⟩
  have some : c.unit.methods ≠ [] := List.ne_nil_of_mem inside
  simp [UnitDraft.isEmpty, some]

theorem crowdedAlone (alone : c.session.units = []) (crowded : Load.Crowded c.closing) :
    ¬ c.unit.Fits c.session.frames := by
  obtain ⟨u, inside, wide⟩ := crowded
  obtain old | rfl | constants := closingUnits inside
  · rw [alone] at old
    contradiction
  · exact wide
  · rw [(constantsMember.1 constants).2] at wide
    exact absurd (List.forall_mem_nil _) wide

theorem entryFound {l : Loaded} (sound : c.Sound R) (holds : Load.Holds c.closing l)
    (distinct : ((Load.unitsOf c.closing).map (·.name)).Nodup) {sig : Signature} {m : MethodDraft}
    (inside : m ∈ c.unit.methods) (named : m.ref.name = sig.name) (timeout : Option Nat) : ∃ method,
      m.render c.session.frames c.session.heap c.session.config.verify = .ok method ∧
        entryPoint l.library timeout sig = .ok ⟨sig.name, method, sig.params, sig.isStatement, timeout⟩ := by
  obtain ⟨cls, found, renders⟩ := holds.classFound distinct (unitMember inside)
  obtain ⟨method, here, rendered⟩ := Load.methodFound renders (by rw [sound.names]; exact sound.distinct) inside
  refine ⟨method, rendered, ?_⟩
  have name : c.unit.name = unitName := by rw [sound.unit]; rfl
  rw [name] at found
  rw [named] at here
  unfold entryPoint
  rw [found]
  dsimp only
  rw [here]

def pointOf (c : Compiler) (sig : Signature) (method : Method) : EntryPoint :=
  ⟨sig.name, method, sig.params, sig.isStatement, c.session.config.timeout?⟩

theorem entriesFound {l : Loaded} (sound : c.Sound R) (holds : Load.Holds c.closing l)
    (distinct : ((Load.unitsOf c.closing).map (·.name)).Nodup) {sigs : List Signature} {ms : List MethodDraft}
    (all : List.Forall₂ (Meets R c.session) sigs ms) (inside : ms ⊆ c.unit.methods) : ∃ eps : List EntryPoint,
      sigs.mapM (entryPoint l.library c.session.config.timeout?) = .ok eps ∧ eps.map (·.name) = sigs.map (·.name) ∧
        ∀ sig m, (sig, m) ∈ sigs.zip ms → ∃ method,
          m.render c.session.frames c.session.heap c.session.config.verify = .ok method ∧ c.pointOf sig method ∈ eps := by
  induction all with
  | nil => exact ⟨[], rfl, rfl, nofun⟩
  | @cons sig m _ _ first _ ih =>
    obtain ⟨member, others⟩ := List.cons_subset.1 inside
    obtain ⟨method, rendered, found⟩ := entryFound sound holds distinct member first.name c.session.config.timeout?
    obtain ⟨eps, made, names, rest⟩ := ih others
    refine ⟨c.pointOf sig method :: eps, ?_, ?_, ?_⟩
    · rw [List.mapM_cons, found, made]
      rfl
    · rw [List.map_cons, List.map_cons, names]
      rfl
    · intro sig m inside
      rw [List.zip_cons_cons, List.mem_cons] at inside
      obtain here | later := inside
      · cases here
        exact ⟨method, rendered, List.mem_cons_self⟩
      · obtain ⟨other, rendered, is⟩ := rest sig m later
        exact ⟨other, rendered, List.mem_cons_of_mem _ is⟩

theorem buildEnds {E : Error → Prop} (sound : c.Sound R) (refusals : ∀ err, E err → Refusal err)
    (ready : ∀ s sig m, R s sig m → m.Ready E s.Knows s.frames fun _ _ _ => True) :
    match c.build with
    | (.error err, _) => E err ∨ err = .of .overflow ∧ Load.Crowded c.closing ∨ c.session.Full ∧ Refusal err
    | (.ok (p, w), _) => ¬ c.session.Full ∧ c.Builds p w := by
  have ends : Ends (do
      Build.addUnit c.unit
      let loaded ← Load.build
      let timeout := (← get).config.timeout?
      let entries ← Build.lift (c.signatures.mapM (entryPoint loaded.library timeout))
      return (⟨loaded.library, entries.mergeSort fun a b => decide (a.name ≤ b.name)⟩, loaded.world) : Build (Program × World))
      c.session (fun err _ => E err ∨ err = .of .overflow ∧ Load.Crowded c.closing ∨ c.session.Full ∧ Refusal err)
      (fun r _ => ¬ c.session.Full ∧ c.Builds r.1 r.2) := by
    rw [Build.endsBind]
    refine Build.endsAddUnit sound.session.unbuilt ?_ ?_
    · intro cause refusal why
      have fresh : c.session.contains c.unit.name = false := by
        rw [sound.unit]
        exact unitNameFresh sound.session
      exact .inr (.inr ⟨why.resolve_right fun there => Bool.false_ne_true (fresh.symm.trans there), refusal⟩)
    · intro room _
      have complete := closingComplete sound room ready
      rw [Build.endsBind]
      refine (Load.buildEnds refusals complete).mono ?_ fun _ _ failed => failed.imp_right .inl
      intro l s ⟨config, holds⟩
      have config : s.config = c.session.config := config
      rw [Build.endsBind, Build.endsGet, Build.endsBind, config]
      obtain ⟨eps, made, names, points⟩ := entriesFound sound holds complete.distinct sound.methods (List.Subset.refl _)
      rw [made]
      refine ⟨room, holds, ?_⟩
      intro sig m inside
      obtain ⟨method, rendered, member⟩ := points sig m inside
      refine ⟨method, rendered, ?_⟩
      have sorted := List.mergeSort_perm eps fun a b => decide (a.name ≤ b.name)
      have apart : ((eps.mergeSort fun a b => decide (a.name ≤ b.name)).map (·.name)).Nodup := by
        rw [(sorted.map _).nodup_iff, names]
        exact sound.distinct
      exact Load.findUnique apart (sorted.mem_iff.2 member)
  rcases answer : c.build with ⟨err | ⟨p, w⟩, s⟩
  · exact ends.error answer
  · exact ends.ok answer

end Compiler

end QueryMachine
