import QueryMachine.Proofs.Program.Compile

/-! Generated code is always accepted. Whatever entry points are asked for, as long as void is not mentioned, a program
is refused for reasons of its own or all its methods pass the verifier and use classes of the program only. -/
namespace QueryMachine

mutual

theorem Node.scopedAnywhere (n : Node) : n.Scoped fun _ => True := by
  match n with
  | .mk operator args location =>
  unfold Node.Scoped
  split
  · next same =>
    cases same
    exact ⟨fun _ _ => trivial, Arg.scopedAllAnywhere args⟩
  · next source item body rest _ same =>
    cases same
    refine ⟨Arg.scopedAnywhere source, ?_, Arg.scopedAllAnywhere rest⟩
    have everywhere : (fun name => True ∨ name = item) = fun _ => True := by simp
    rw [everywhere]
    exact Arg.scopedAnywhere body
  · next same =>
    cases same
    exact Arg.scopedAllAnywhere args
termination_by sizeOf n

theorem Arg.scopedAnywhere (a : Arg) : a.Scoped fun _ => True := by
  cases a with
  | node n =>
    rw [Arg.Scoped]
    exact Node.scopedAnywhere n
  | nodes ns =>
    rw [Arg.Scoped]
    exact Node.scopedAllAnywhere ns
  | _ =>
    rw [Arg.Scoped]
    trivial
termination_by sizeOf a

theorem Arg.scopedAllAnywhere (args : List Arg) : Arg.ScopedAll (fun _ => True) args := by
  cases args with
  | nil =>
    rw [Arg.ScopedAll]
    trivial
  | cons a rest =>
    rw [Arg.ScopedAll]
    exact ⟨Arg.scopedAnywhere a, Arg.scopedAllAnywhere rest⟩
termination_by sizeOf args

theorem Node.scopedAllAnywhere (ns : List Node) : Node.ScopedAll (fun _ => True) ns := by
  cases ns with
  | nil =>
    rw [Node.ScopedAll]
    trivial
  | cons n rest =>
    rw [Node.ScopedAll]
    exact ⟨Node.scopedAnywhere n, Node.scopedAllAnywhere rest⟩
termination_by sizeOf ns

end

namespace Account

def plain (m : MethodDraft) : Account where
  root := m.frame
  base := m.locals.length
  param _ := True
  named _ := True
  castable _ _ := True
  refuses := Refusal
  tells _ _ _ _ _ := True

theorem plainCovers (m : MethodDraft) : (plain m).Covers Lowering.Checks.none where
  rules := by constructor <;> intros <;> trivial
  casts _ _ _ := trivial
  keys _ _ _ _ _ _ _ _ := rfl
  tests _ _ _ _ _ := rfl

theorem plainLowers (m : MethodDraft) {n : Node} (valued : n.Valued) :
    (plain m).Lowers (fun _ => False) (Lowering.ofNode n) := by
  rw [← Lowering.ofNodeAlways]
  exact ofNodeLowers (plainCovers m) n valued n.scopedAnywhere fun _ _ => .inr trivial

end Account

namespace Compiler

theorem createdFind {fs fs' fs'' : Frames} {params : List (String × Ty)} {m : MethodDraft}
    (created : MethodDraft.Created fs none params m fs') (grows : fs'.Grows fs'') {name : String} {l : Local}
    (found : fs''.find? m.frame name = some l) : l.frame = m.frame ∧ fs''.Has l ∧ l.name = name := by
  have low : m.frame < fs'.table.size := by
    rw [created.frame, created.size]
    exact Nat.lt_succ_self _
  refine Frames.findRoot (Nat.lt_of_lt_of_le low grows.more) ?_ found
  rw [grows.ancestors m.frame low, created.outermost]

theorem plainHosts : Hosts Account.plain where
  root _ := rfl
  base _ := rfl
  params _ _ _ := trivial
  named created grows _ _ _ found := by
    obtain ⟨frame, has, _⟩ := createdFind created grows found
    exact ⟨trivial, frame, has⟩

/-- Void is mentioned neither in the parameters nor in the tree. -/
def EntryValued (e : Entry) : Prop := (∀ p ∈ e.params, p.2.Valued) ∧ e.node.Valued

def Renderable (s : Session) (_ : Signature) (m : MethodDraft) : Prop :=
  m.Ready Refusal s.Knows s.frames fun _ _ _ => True

theorem renderableLasts : Lasts Renderable := fun _ _ _ _ later ready =>
  ready.mono (fun _ h => h) later.knows later.frames fun _ _ _ h => h

theorem methodRenders {context : ContextId} {e : Entry} {s : Session} (valued : EntryValued e) (good : s.Good) :
    Advances (method context e) s fun r s' => Meets Renderable s' ⟨e.name, r.2, e.isStatement⟩ r.1 := by
  refine (methodAdvances plainHosts good valued.1 fun m => Account.plainLowers m valued.2).mono ?_
  rintro _ s' _ good ⟨l, prepared, rfl⟩
  refine prepared.drafted.meets ?_
  exact (prepared.ready plainHosts e.isStatement).mono (fun _ h => h) (fun _ h => h) (.refl _) fun _ _ _ _ => trivial

theorem compiledLater (config : Config) (heap : Heap) {es : List Entry} (valued : ∀ e ∈ es, EntryValued e) :
    ((new config heap).addAll es).Sound Renderable ∧
      (new config heap).session.Later ((new config heap).addAll es).session :=
  addAllSound (newSound config heap) renderableLasts fun e inside _ good => methodRenders (valued e inside) good

theorem compiledSound (config : Config) (heap : Heap) {es : List Entry} (valued : ∀ e ∈ es, EntryValued e) :
    ((new config heap).addAll es).Sound Renderable ∧ ((new config heap).addAll es).session.config = config :=
  (compiledLater config heap valued).imp_right (·.config)

variable {c : Compiler} {p : Program} {w : World}

theorem Builds.accepted (builds : c.Builds p w) (sound : c.Sound Renderable) (verifying : c.session.config.verify = true) :
    p.library.Accepted := by
  rintro method ⟨cls, loaded, inside⟩
  obtain ⟨classes, all, perm⟩ := builds.loaded.classes
  obtain ⟨u, member, renders⟩ := Load.pairedLeft all (perm.mem_iff.1 loaded)
  obtain ⟨m, draft, rendered⟩ := Load.pairedLeft renders.methods inside
  have typed : m.ref.returns = m.returns.rep := by
    obtain old | rfl | constants := closingUnits member
    · exact (sound.session.units u old).typed m draft
    · obtain ⟨_, _, meets⟩ := Load.pairedLeft sound.methods draft
      exact meets.typed
    · rw [(constantsMember.1 constants).2] at draft
      contradiction
  have ref := MethodDraft.renderRef rendered
  have rendered : m.render c.session.frames c.session.heap true = .ok method := verifying ▸ rendered
  refine ⟨method.maxStack, ?_⟩
  unfold Method.verdict
  rw [ref, typed]
  exact MethodDraft.renderAccepted rendered

theorem Builds.closedUnder (builds : c.Builds p w) (sound : c.Sound Renderable) (room : ¬ c.session.Full) :
    ∀ cls ∈ p.library.classes, ∀ name ∈ cls.dependencies, (p.library.class? name).isSome := by
  intro cls loaded name used
  have complete := closingComplete sound room fun _ _ _ ready => ready
  obtain ⟨classes, all, perm⟩ := builds.loaded.classes
  obtain ⟨u, member, renders⟩ := Load.pairedLeft all (perm.mem_iff.1 loaded)
  obtain ⟨d, there, is⟩ := Load.memberKnown renders (complete.ready u member) name used
  obtain ⟨found, at_, _⟩ := builds.loaded.classFound complete.distinct there
  rw [is] at at_
  rw [at_]
  rfl

theorem zipMember {α β : Type} {xs : List α} {ys : List β} (length : xs.length = ys.length) {x : α} (inside : x ∈ xs) :
    ∃ y, (x, y) ∈ xs.zip ys := by
  rw [← List.map_fst_zip (Nat.le_of_eq length)] at inside
  obtain ⟨⟨_, y⟩, member, rfl⟩ := List.mem_map.1 inside
  exact ⟨y, member⟩

theorem Builds.entryLoaded (builds : c.Builds p w) (sound : c.Sound Renderable) {sig : Signature} {m : MethodDraft}
    {method : Method} (inside : (sig, m) ∈ c.signatures.zip c.unit.methods)
    (rendered : m.render c.session.frames c.session.heap c.session.config.verify = .ok method) :
    p.library.Has method ∧ method.name = sig.name := by
  have draft := (List.of_mem_zip inside).2
  obtain ⟨classes, all, perm⟩ := builds.loaded.classes
  obtain ⟨cls, loaded, renders⟩ := Load.pairedRight all (unitMember draft)
  obtain ⟨other, member, same⟩ := Load.pairedRight renders.methods draft
  cases rendered.symm.trans same
  refine ⟨⟨cls, perm.mem_iff.2 loaded, member⟩, ?_⟩
  exact (congrArg MethodRef.name (MethodDraft.renderRef rendered)).trans (List.forall₂_zip sound.methods inside).name

/-- A program of any entry points that do not mention void: where it is refused, that is not for a defect of the
compiler, and where it is built every accepted entry point is there, every unit is loaded, every method passes the
verifier at the width of its result and only loaded classes are used. -/
theorem builtCodeVerifies (config : Config) (verifying : config.verify = true) (heap : Heap) (es : List Entry)
    (valued : ∀ e ∈ es, EntryValued e) :
    let c := (new config heap).addAll es
    match c.build with
    | (.error err, _) => err.cause.isInternal = false
    | (.ok (p, _), _) => p.library.Accepted ∧
        (∀ cls ∈ p.library.classes, ∀ name ∈ cls.dependencies, (p.library.class? name).isSome) ∧
        (∀ sig ∈ c.signatures, ∃ e, p.entry? sig.name = some e ∧ p.library.Has e.method ∧ e.method.name = sig.name ∧
          e.params = sig.params ∧ e.isStatement = sig.isStatement) ∧
        (∀ u ∈ c.session.units, (p.library.class? u.name).isSome) ∧
        (c.session.constants.hoisted ≠ [] → (p.library.class? Constants.unitName).isSome) := by
  intro c
  obtain ⟨sound, same⟩ : c.Sound Renderable ∧ c.session.config = config := compiledSound config heap valued
  have ends := buildEnds sound (fun _ h => h) fun _ _ _ ready => ready
  split
  · next err s answer =>
    rw [answer] at ends
    obtain refusal | ⟨rfl, _⟩ | ⟨_, refusal⟩ := ends
    · exact refusal
    · rfl
    · exact refusal
  · next p w s answer =>
    rw [answer] at ends
    obtain ⟨room, builds⟩ := ends
    have complete := closingComplete sound room fun _ _ _ ready => ready
    have loaded : ∀ u ∈ Load.unitsOf c.closing, (p.library.class? u.name).isSome := by
      intro u inside
      obtain ⟨cls, found, _⟩ := builds.loaded.classFound complete.distinct inside
      rw [found]
      rfl
    refine ⟨builds.accepted sound (by rw [same]; exact verifying), builds.closedUnder sound room, ?_, ?_, ?_⟩
    · intro sig inside
      obtain ⟨m, member⟩ := zipMember sound.methods.length_eq inside
      obtain ⟨method, rendered, found⟩ := builds.entries sig m member
      obtain ⟨has, name⟩ := builds.entryLoaded sound member rendered
      exact ⟨_, found, has, name, rfl, rfl⟩
    · intro u inside
      obtain ⟨d, there, is⟩ := knownLoaded sound room (.inr (.inl ⟨u, inside, rfl⟩))
      rw [← is]
      exact loaded d there
    · intro some
      obtain ⟨d, there, is⟩ := knownLoaded sound room (.inr (.inr ⟨rfl, some⟩))
      rw [← is]
      exact loaded d there

def successors : Entry where
  name := "successors"
  params := [("xs", .array (.scalar .int32))]
  node := .mk .transform [.node (.mk .argument [.name "xs"] .unknown), .name "x",
    .node (.mk .record [.names ["next"], .nodes [.mk .add [.node (.mk .local [.name "x"] .unknown),
      .node (.mk .literal [.value (.int 1)] .unknown)] .unknown]] .unknown)] .unknown
  isStatement := true

theorem successorsVerify : ∃ p w s, ((new .default .empty).addAll [successors]).build = (.ok (p, w), s) ∧
    p.library.classes.map (·.name) = ["struct_0", "program"] ∧ p.library.Accepted := by
  have names : (match ((new .default .empty).addAll [successors]).build with
      | (.ok (p, _), _) => some (p.library.classes.map (·.name))
      | (.error _, _) => none) = some ["struct_0", "program"] := by decide +kernel
  have valued : ∀ e ∈ [successors], EntryValued e := by
    intro e inside
    rw [List.mem_singleton.1 inside]
    simp [EntryValued, successors, ValueType.Valued, Node.Valued, Arg.ValuedAll, Arg.Valued, Node.ValuedAll]
  have verified := builtCodeVerifies .default rfl .empty [successors] valued
  rcases answer : ((new .default .empty).addAll [successors]).build with ⟨err | ⟨p, w⟩, s⟩
  · rw [answer] at names
    contradiction
  · rw [answer] at names
    simp only [answer] at verified
    exact ⟨p, w, s, rfl, Option.some.inj names, verified.1⟩

end Compiler

end QueryMachine
