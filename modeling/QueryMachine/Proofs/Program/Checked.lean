import QueryMachine.Proofs.Program.Verified

/-! Lowering with checks does what lowering without them does, or refuses a cast. Where the keys of elements and the tests
of choices are checked, whatever is accepted can be built: no other error is left to the building of a program. -/
namespace QueryMachine

open Conversion (castOps?)

def Error.IsCast (err : Error) : Prop := ∃ a b, err.cause = .incompatibleCast a b

namespace Build

variable {α β : Type}

def Screens (b b' : Build α) : Prop := ∀ s, b s = b' s ∨ ∃ err s', b s = (.error err, s') ∧ err.IsCast

theorem Screens.refl (b : Build α) : b.Screens b := fun _ => .inl rfl

theorem screensRefusal (a b : String) (b' : Build α) : (fail (.incompatibleCast a b) : Build α).Screens b' :=
  fun s => .inr ⟨_, s, rfl, a, b, rfl⟩

theorem Screens.bind {b b' : Build α} {f f' : α → Build β} (first : b.Screens b') (rest : ∀ v, (f v).Screens (f' v)) :
    (b >>= f).Screens (b' >>= f') := by
  intro s
  obtain same | ⟨err, s', refused, cast⟩ := first s
  · rcases answer : b s with ⟨err | v, s'⟩
    · rw [bindError answer, bindError (same.symm.trans answer)]
      exact .inl rfl
    · rw [bindOk answer, bindOk (same.symm.trans answer)]
      exact rest v s'
  · exact .inr ⟨err, s', bindError refused, cast⟩

theorem Screens.before {b b' : Build α} (first : b.Screens b') (f : α → Build β) : (b >>= f).Screens (b' >>= f) :=
  first.bind fun v => .refl (f v)

theorem Screens.after {f f' : α → Build β} (b : Build α) (rest : ∀ v, (f v).Screens (f' v)) : (b >>= f).Screens (b >>= f') :=
  (Screens.refl b).bind rest

theorem screensAll {ι : Type} {is js : List ι} {f : ι → Build α} (each : List.Forall₂ (fun i j => (f i).Screens (f j)) is js) :
    (is.mapM f).Screens (js.mapM f) := by
  induction each with
  | nil => exact .refl _
  | cons first _ ih =>
    rw [List.mapM_cons, List.mapM_cons]
    exact first.bind fun v => ih.before _

theorem transformScreens {frame : FrameId} {iterable : Expr} {body body' : Expr → Build Expr}
    (screens : ∀ item, (body item).Screens (body' item)) :
    (Build.transform frame iterable body).Screens (Build.transform frame iterable body') := by
  unfold Build.transform
  exact .after _ fun scope => .after _ fun loop => (screens _).before _

end Build

namespace Lowering

open Build (Screens screensAll)

variable {may : Checks}

def Screens (l l' : Lowering) : Prop := ∀ env, (l env).Screens (l' env)

theorem locatedScreens {l l' : Lowering} (location : Location) (screens : l.Screens l') :
    (located location l).Screens (located location l') := by
  intro env
  unfold located
  split
  · exact screens env
  · intro s
    rw [Account.tryLocated, Account.tryLocated]
    obtain same | ⟨err, s', refused, a, b, cast⟩ := screens env s
    · rw [same]
      exact .inl rfl
    · rw [refused]
      exact .inr ⟨_, s', rfl, a, b, (Account.locateCause err location).trans cast⟩

inductive Operand.Screens : Operand → Operand → Prop
  | refl (a : Operand) : Screens a a
  | node {l l' : Lowering} : l.Screens l' → Screens (.node l) (.node l')
  | nodes {ls ls' : List Lowering} : List.Forall₂ Lowering.Screens ls ls' → Screens (.nodes ls) (.nodes ls')

section

variable (operator : Operator) {as as' : List Operand} (args : List.Forall₂ Operand.Screens as as')

include args

theorem argScreens (i : Nat) : as[i]? = none ∧ as'[i]? = none ∨
    ∃ a a', as[i]? = some a ∧ as'[i]? = some a' ∧ a.Screens a' := by
  induction args generalizing i with
  | nil => exact .inl ⟨rfl, rfl⟩
  | cons first _ ih =>
    cases i with
    | zero => exact .inr ⟨_, _, rfl, rfl, first⟩
    | succ i => exact ih i

theorem missingSame {α : Type} (what : String) (i : Nat) :
    (Operands.missing ⟨operator, as⟩ what i : Build α) = Operands.missing ⟨operator, as'⟩ what i := by
  unfold Operands.missing
  rw [args.length_eq]

theorem nodeScreens (i : Nat) (env : Env) : (Operands.node ⟨operator, as⟩ i env).Screens (Operands.node ⟨operator, as'⟩ i env) := by
  unfold Operands.node
  rw [missingSame operator args]
  obtain ⟨is, is'⟩ | ⟨a, a', is, is', screens⟩ := argScreens args i
  · rw [is, is']
    exact .refl _
  · rw [is, is']
    cases screens with
    | refl => exact .refl _
    | node screens => exact screens env
    | nodes => exact .refl _

theorem nodesScreens (i : Nat) (env : Env) :
    (Operands.nodes ⟨operator, as⟩ i env).Screens (Operands.nodes ⟨operator, as'⟩ i env) := by
  unfold Operands.nodes
  rw [missingSame operator args]
  obtain ⟨is, is'⟩ | ⟨a, a', is, is', screens⟩ := argScreens args i
  · rw [is, is']
    exact .refl _
  · rw [is, is']
    cases screens with
    | refl => exact .refl _
    | node => exact .refl _
    | nodes each => exact screensAll (each.imp fun _ _ screens => screens env)

theorem plainSame (i : Nat) : Operands.name ⟨operator, as⟩ i = Operands.name ⟨operator, as'⟩ i ∧
    Operands.names ⟨operator, as⟩ i = Operands.names ⟨operator, as'⟩ i ∧
    Operands.value ⟨operator, as⟩ i = Operands.value ⟨operator, as'⟩ i ∧
    ∀ env, Operands.type? ⟨operator, as⟩ i env = Operands.type? ⟨operator, as'⟩ i env := by
  unfold Operands.name Operands.names Operands.value Operands.type?
  simp only [missingSame operator args]
  obtain ⟨is, is'⟩ | ⟨a, a', is, is', screens⟩ := argScreens args i
  · simp only [is, is', implies_true, and_self]
  · simp only [is, is']
    cases screens <;> simp only [implies_true, and_self]

theorem entriesScreens (env : Env) :
    (Operands.entries ⟨operator, as⟩ env).Screens (Operands.entries ⟨operator, as'⟩ env) := by
  unfold Operands.entries
  rw [(plainSame operator args 0).2.1]
  exact .after _ fun names => (nodesScreens operator args 1 env).before _

theorem binaryScreens {combine combine' : Expr → Expr → Build Expr} (env : Env)
    (each : ∀ l r, (combine l r).Screens (combine' l r)) :
    (Operands.binary ⟨operator, as⟩ env combine).Screens (Operands.binary ⟨operator, as'⟩ env combine') :=
  (nodeScreens operator args 0 env).bind fun l => (nodeScreens operator args 1 env).bind fun r => each l r

theorem loopScreens (env : Env) : (transform ⟨operator, as⟩ env).Screens (transform ⟨operator, as'⟩ env) := by
  unfold transform
  rw [(plainSame operator args 1).1]
  refine (nodeScreens operator args 0 env).bind fun iterable => .after _ fun name => ?_
  unfold Operands.body
  rw [missingSame operator args]
  obtain ⟨is, is'⟩ | ⟨a, a', is, is', screens⟩ := argScreens args 2
  · rw [is, is']
    exact .refl _
  · rw [is, is']
    cases screens with
    | refl => exact .refl _
    | node screens =>
      dsimp only
      rw [pure_bind, pure_bind]
      exact Build.transformScreens fun item => screens _
    | nodes => exact .refl _

theorem applyScreens (location : Location) :
    (applyWhere may ⟨operator, as⟩ location).Screens (apply ⟨operator, as'⟩ location) := by
  intro env
  have same (i : Nat) := plainSame operator args i
  have first := nodeScreens operator args 0 env
  have all := nodesScreens operator args 0 env
  unfold applyWhere apply
  cases operator <;> dsimp only
  case literal =>
    rw [(same 0).2.2.1]
    exact .refl _
  case null =>
    rw [(same 0).2.2.2 env]
    exact .refl _
  case array | and | or | coalesce => exact Build.Screens.before all _
  case map | record => exact Build.Screens.before (entriesScreens _ args env) _
  case property =>
    rw [(same 1).1]
    exact Build.Screens.before first _
  case index =>
    refine binaryScreens _ args env fun target key => ?_
    split
    · exact .refl _
    · exact Build.screensRefusal _ _ _
  case cond =>
    refine first.bind fun test => (nodeScreens _ args 1 env).bind fun yes => (nodeScreens _ args 2 env).bind fun no => ?_
    split
    · exact .refl _
    · exact Build.screensRefusal _ _ _
  case cast =>
    rw [(same 1).2.2.2 env]
    refine first.bind fun value => .after _ fun type => ?_
    split
    · split
      · exact .refl _
      · exact Build.screensRefusal _ _ _
    · exact .refl _
  case «local» | argument =>
    rw [(same 0).1]
    exact .refl _
  case transform => exact loopScreens _ args env
  case negate | not | isNull | length | resolve => exact Build.Screens.before first _
  case call | invoke | subquery => exact .refl _
  all_goals exact binaryScreens _ args env fun l r => .refl _

end

mutual

theorem ofNodeScreens : ∀ n : Node, (ofNodeWhere may n).Screens (ofNode n)
  | .mk operator args location => by
    rw [ofNodeWhere, ofNode]
    exact locatedScreens location (applyScreens operator (ofArgsScreen args) location)

theorem ofArgScreens : ∀ a : Arg, (ofArgWhere may a).Screens (ofArg a)
  | .node n => by
    rw [ofArgWhere, ofArg]
    exact .node (ofNodeScreens n)
  | .nodes ns => by
    rw [ofArgWhere, ofArg]
    exact .nodes (ofNodesScreen ns)
  | .name _ | .names _ | .value _ | .type _ => by
    rw [ofArgWhere, ofArg]
    exact .refl _

theorem ofArgsScreen : ∀ args : List Arg, List.Forall₂ Operand.Screens (ofArgsWhere may args) (ofArgs args)
  | [] => by
    rw [ofArgsWhere, ofArgs]
    exact .nil
  | a :: rest => by
    rw [ofArgsWhere, ofArgs]
    exact .cons (ofArgScreens a) (ofArgsScreen rest)

theorem ofNodesScreen : ∀ ns : List Node, List.Forall₂ Lowering.Screens (ofNodesWhere may ns) (ofNodes ns)
  | [] => by
    rw [ofNodesWhere, ofNodes]
    exact .nil
  | n :: rest => by
    rw [ofNodesWhere, ofNodes]
    exact .cons (ofNodeScreens n) (ofNodesScreen rest)

end

def Checks.strict : Checks where
  cast _ _ := true
  key target key := (IndexAccess.of? target).all fun a => (castOps? a.keyType key).isSome
  test t := t.truth?.isSome

end Lowering

mutual

def Node.Mentions (which : Operator → Prop) : Node → Prop
  | .mk operator args _ => which operator ∨ Arg.AnyMentions which args

def Arg.Mentions (which : Operator → Prop) : Arg → Prop
  | .node n => n.Mentions which
  | .nodes ns => Node.AnyMentions which ns
  | .name _ | .names _ | .value _ | .type _ => False

def Arg.AnyMentions (which : Operator → Prop) : List Arg → Prop
  | [] => False
  | a :: rest => a.Mentions which ∨ Arg.AnyMentions which rest

def Node.AnyMentions (which : Operator → Prop) : List Node → Prop
  | [] => False
  | n :: rest => n.Mentions which ∨ Node.AnyMentions which rest

end

/-- Operators that look at the types of their operands once more where their code is written. -/
def Operator.IsLate (o : Operator) : Prop := o = .index ∨ o = .cond

namespace Lowering

theorem strictApply {o : Operands} (location : Location) (early : ¬ o.operator.IsLate) :
    applyWhere .strict o location = apply o location := by
  obtain ⟨operator, args⟩ := o
  cases operator with
  | index => exact absurd (.inl rfl) early
  | cond => exact absurd (.inr rfl) early
  | _ => rfl

mutual

theorem strictNode : ∀ n : Node, ¬ n.Mentions Operator.IsLate → ofNodeWhere .strict n = ofNode n
  | .mk operator args location => by
    intro early
    rw [Node.Mentions, not_or] at early
    rw [ofNodeWhere, ofNode, strictArgs args early.2, strictApply location early.1]

theorem strictArg : ∀ a : Arg, ¬ a.Mentions Operator.IsLate → ofArgWhere .strict a = ofArg a
  | .node n => by
    intro early
    rw [Arg.Mentions] at early
    rw [ofArgWhere, ofArg, strictNode n early]
  | .nodes ns => by
    intro early
    rw [Arg.Mentions] at early
    rw [ofArgWhere, ofArg, strictNodes ns early]
  | .name _ | .names _ | .value _ | .type _ => by
    intro _
    rw [ofArgWhere, ofArg]

theorem strictArgs : ∀ args : List Arg, ¬ Arg.AnyMentions Operator.IsLate args → ofArgsWhere .strict args = ofArgs args
  | [] => by
    intro _
    rw [ofArgsWhere, ofArgs]
  | a :: rest => by
    intro early
    rw [Arg.AnyMentions, not_or] at early
    rw [ofArgsWhere, ofArgs, strictArg a early.1, strictArgs rest early.2]

theorem strictNodes : ∀ ns : List Node, ¬ Node.AnyMentions Operator.IsLate ns → ofNodesWhere .strict ns = ofNodes ns
  | [] => by
    intro _
    rw [ofNodesWhere, ofNodes]
  | n :: rest => by
    intro early
    rw [Node.AnyMentions, not_or] at early
    rw [ofNodesWhere, ofNodes, strictNode n early.1, strictNodes rest early.2]

end

end Lowering

namespace Account

def failing (E : Error → Prop) (m : MethodDraft) : Account := { plain m with refuses := E }

variable {may : Lowering.Checks} {E : Error → Prop}

theorem failingCovers (m : MethodDraft)
    (keys : ∀ target key, may.key target key = true → ∀ a, IndexAccess.of? target = some a →
      castOps? a.keyType key = none → ∀ c d, E (.of (.incompatibleCast c d)))
    (tests : ∀ t, may.test t = true → t.truth? = none → ∀ a b, E (.of (.incompatibleCast a b))) :
    (failing E m).Covers may where
  rules := by constructor <;> intros <;> trivial
  casts _ _ _ := trivial
  keys := keys
  tests := tests

theorem strictCovers (E : Error → Prop) (m : MethodDraft) : (failing E m).Covers .strict := by
  refine failingCovers m ?_ ?_
  · intro target key checked a access none
    have converts : (IndexAccess.of? target).all (fun a => (castOps? a.keyType key).isSome) = true := checked
    rw [access, Option.all_some, none] at converts
    contradiction
  · intro t checked none
    have truth : t.truth?.isSome = true := checked
    rw [none] at truth
    contradiction

theorem coveredLowers (covers : ∀ m, (failing E m).Covers may) {n : Node} (valued : n.Valued) (m : MethodDraft) :
    (failing E m).Lowers (fun _ => False) (Lowering.ofNodeWhere may n) :=
  ofNodeLowers (covers m) n valued n.scopedAnywhere fun _ _ => .inr trivial

end Account

namespace Compiler

theorem failingHosts (E : Error → Prop) : Hosts (Account.failing E) where
  root := plainHosts.root
  base := plainHosts.base
  params := plainHosts.params
  named := plainHosts.named

/-- An entry point that is accepted although the key of an element does not convert, or the test of a choice has no
truth. -/
structure Overlooked (c : Compiler) (e : Entry) : Prop where
  accepted : (c.add e).1 = .ok ()
  refused : ∃ err s', lowerBy (Lowering.ofNodeWhere .strict e.node) c.context e c.session = (.error err, s') ∧ err.IsCast

variable {c : Compiler} {e : Entry} {E : Error → Prop}

theorem acceptedMethod (accepted : (c.add e).1 = .ok ()) :
    ∃ m types s', method c.context e c.session = (.ok (m, types), s') := by
  obtain ⟨err, s', is, _⟩ | ⟨m, types, s', _, answer, _⟩ := c.addCases e
  · rw [is] at accepted
    contradiction
  · exact ⟨m, types, s', answer⟩

theorem lowerScreens (may : Lowering.Checks) (context : ContextId) (e : Entry) :
    (lowerBy (Lowering.ofNodeWhere may e.node) context e).Screens (lower context e) := by
  unfold lowerBy lower
  refine .after _ fun _ => .after _ fun types => .after _ fun draft => ?_
  cases draft.locals with
  | nil => exact .refl _
  | cons timeout locals => exact (Lowering.ofNodeScreens e.node _).before _

theorem Overlooked.late (overlooked : c.Overlooked e) : e.node.Mentions Operator.IsLate := by
  obtain ⟨accepted, err, s', refused, _⟩ := overlooked
  by_contra early
  rw [Lowering.strictNode e.node early, ← lowerIs] at refused
  obtain ⟨m, types, s'', answer⟩ := acceptedMethod accepted
  unfold method at answer
  rw [Build.bindError refused] at answer
  cases answer

def Leaves (E : Error → Prop) (s : Session) (_ : Signature) (m : MethodDraft) : Prop :=
  m.Ready E s.Knows s.frames fun _ _ _ => True

theorem leavesLasts : Lasts (Leaves E) := fun _ _ _ _ later ready =>
  ready.mono (fun _ h => h) later.knows later.frames fun _ _ _ h => h

theorem methodLeaves {may : Lowering.Checks} {s : Session} {context : ContextId} (covers : ∀ m, (Account.failing E m).Covers may)
    (valued : EntryValued e) (good : s.Good)
    (same : lower context e s = lowerBy (Lowering.ofNodeWhere may e.node) context e s) :
    Advances (method context e) s fun r s' => Meets (Leaves E) s' ⟨e.name, r.2, e.isStatement⟩ r.1 := by
  have lowers : Advances (lower context e) s fun l s' => Prepared (Account.failing E) e s' l := by
    unfold Advances Build.Ends
    rw [same]
    exact lowerAdvances (failingHosts E) good valued.1 (Account.coveredLowers covers valued.2)
  refine (methodPrepared lowers).mono ?_
  intro r s' _ good ⟨l, prepared, is⟩
  rw [is]
  refine prepared.drafted.meets ?_
  exact (prepared.ready (failingHosts E) e.isStatement).mono (fun _ h => h) (fun _ h => h) (.refl _) fun _ _ _ _ => trivial

theorem acceptedLeaves (valued : EntryValued e) (good : c.session.Good) (accepted : (c.add e).1 = .ok ()) :
    Advances (method c.context e) c.session fun r s' =>
      Meets (Leaves fun err => c.Overlooked e ∧ ∃ a b, err = .of (.incompatibleCast a b)) s' ⟨e.name, r.2, e.isStatement⟩ r.1 := by
  obtain same | ⟨err, s', refused, cast⟩ := lowerScreens .strict c.context e c.session
  · exact methodLeaves (Account.strictCovers _) valued good same.symm
  · have overlooked : c.Overlooked e := ⟨accepted, err, s', refused, cast⟩
    have covers (m : MethodDraft) :
        (Account.failing (fun err => c.Overlooked e ∧ ∃ a b, err = .of (.incompatibleCast a b)) m).Covers .none :=
      Account.failingCovers m (fun _ _ _ _ _ _ a b => ⟨overlooked, a, b, rfl⟩) fun _ _ _ a b => ⟨overlooked, a, b, rfl⟩
    refine methodLeaves covers valued good ?_
    rw [lowerIs, Lowering.ofNodeAlways]

/-- In a program of any entry points that do not mention void, with room for its units: it is built, or some method takes
more slots than there are, or it fails with a cast that cannot be made, and then one of the entry points that were accepted
was overlooked. It asks for elements or chooses. Whatever else is wrong with a tree is refused with the entry point
itself. -/
theorem onlyOverlookedFail (config : Config) (heap : Heap) {es : List Entry} (valued : ∀ e ∈ es, EntryValued e)
    (room : ¬ ((new config heap).addAll es).session.Full) :
    (∃ p w s, ((new config heap).addAll es).build = (.ok (p, w), s)) ∨
    (∃ s, ((new config heap).addAll es).build = (.error (.of .overflow), s)) ∧ Load.Crowded ((new config heap).addAll es).closing ∨
    (∃ a b s, ((new config heap).addAll es).build = (.error (.of (.incompatibleCast a b)), s)) ∧
      ∃ before e after, es = before ++ e :: after ∧ ((new config heap).addAll before).Overlooked e ∧
        e.node.Mentions Operator.IsLate := by
  let E (err : Error) : Prop := (∃ a b, err = .of (.incompatibleCast a b)) ∧
    ∃ before e after, es = before ++ e :: after ∧ ((new config heap).addAll before).Overlooked e
  obtain ⟨sound, _⟩ : ((new config heap).addAll es).Sound (Leaves E) ∧ _ := by
    refine addAllSoundWhen (newSound config heap) leavesLasts ?_ ?_
    · intro e inside s good
      exact (methodRenders (valued e inside) good).mono fun _ _ _ _ _ => trivial
    · intro before e after split good accepted
      have inside : e ∈ es := by
        rw [split]
        simp
      have context : ((new config heap).addAll before).context = (new config heap).context := addAllContext _ _
      rw [← context]
      refine (acceptedLeaves (valued e inside) good accepted).mono ?_
      intro r s' _ _ meets
      refine ⟨meets.cls, meets.name, meets.typed, meets.related.mono ?_ (fun _ h => h) (.refl _) fun _ _ _ h => h⟩
      rintro err ⟨overlooked, cast⟩
      exact ⟨cast, before, e, after, split, overlooked⟩
  have ends := buildEnds sound (fun err ⟨⟨a, b, is⟩, _⟩ => by rw [is]; rfl) fun _ _ _ ready => ready
  rcases answer : ((new config heap).addAll es).build with ⟨err | ⟨p, w⟩, s⟩
  · rw [answer] at ends
    obtain ⟨⟨a, b, is⟩, before, e, after, split, overlooked⟩ | ⟨rfl, crowded⟩ | ⟨full, _⟩ := ends
    · rw [is]
      exact .inr (.inr ⟨⟨a, b, s, rfl⟩, before, e, after, split, overlooked, overlooked.late⟩)
    · exact .inr (.inl ⟨⟨s, rfl⟩, crowded⟩)
    · exact absurd full room
  · exact .inl ⟨p, w, s, rfl⟩

def oneEntry : Entry := ⟨"one", [], .mk .literal [.value (.int 1)] .unknown, false⟩

def numberKeyEntry : Entry :=
  ⟨"element", [("m", .map .string .string)],
    .mk .index [.node (.mk .argument [.name "m"] .unknown), .node (.mk .literal [.value (.int 1)] .unknown)] .unknown, false⟩

/-- The first entry point cannot be had with the second, which is accepted. -/
theorem numberKeyOverlooked :
    (∃ a b s, ((new .default .empty).addAll [oneEntry, numberKeyEntry]).build = (.error (.of (.incompatibleCast a b)), s)) ∧
      ((new .default .empty).addAll [oneEntry]).Overlooked numberKeyEntry := by
  have fails : ((new .default .empty).addAll [oneEntry, numberKeyEntry]).build.1.isOk = false := by decide +kernel
  have room : ¬ ((new .default .empty).addAll [oneEntry, numberKeyEntry]).session.Full := by
    unfold Session.Full
    decide +kernel
  have valued : ∀ e ∈ [oneEntry, numberKeyEntry], EntryValued e := by
    intro e inside
    simp only [List.mem_cons, List.not_mem_nil, or_false] at inside
    rcases inside with rfl | rfl <;>
      simp [EntryValued, oneEntry, numberKeyEntry, Node.Valued, Arg.ValuedAll, Arg.Valued, ValueType.Valued]
  obtain ⟨p, w, s, built⟩ | ⟨_, crowded⟩ | ⟨failed, before, e, after, split, overlooked, late⟩ :=
    onlyOverlookedFail .default .empty valued room
  · rw [built] at fails
    contradiction
  · have alone : ((new .default .empty).addAll [oneEntry, numberKeyEntry]).session.units.length = 0 := by decide +kernel
    have slots : ((new .default .empty).addAll [oneEntry, numberKeyEntry]).unit.Fits
        ((new .default .empty).addAll [oneEntry, numberKeyEntry]).session.frames := by decide +kernel
    exact absurd slots (crowdedAlone (List.length_eq_zero_iff.1 alone) crowded)
  refine ⟨failed, ?_⟩
  rcases before with _ | ⟨first, _ | ⟨second, more⟩⟩
  · obtain ⟨rfl, _⟩ := List.cons.inj split
    simp [oneEntry, Node.Mentions, Arg.AnyMentions, Arg.Mentions, Operator.IsLate] at late
  · obtain ⟨rfl, rest⟩ := List.cons.inj split
    obtain ⟨rfl, _⟩ := List.cons.inj rest
    exact overlooked
  · simp at split

end Compiler

end QueryMachine
