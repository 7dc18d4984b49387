import QueryMachine.Proofs.Program.Invocation
import QueryMachine.Proofs.Program.Isolation

/-! Statements beside expressions. Two programs whose entry points are the same but for one, which is an expression in
the one and a statement in the other, start in the same state; and what the expression does the statement does, with a
value or a fault returned as an outcome. Programs with other entry points besides may differ in the literals they share. -/
namespace QueryMachine

namespace UnitDraft

variable {u u' : UnitDraft} {m m' : MethodDraft}

theorem Twins.refs (twins : u.Twins u') : u'.methods.map (·.ref) = u.methods.map (·.ref) := by
  have all := twins.methods
  generalize u.methods = ms, u'.methods = ms' at all
  induction all with
  | nil => rfl
  | cons first _ ih => rw [List.map_cons, List.map_cons, ih, first.ref]

theorem Twins.added (twins : u.Twins u') (own : u.name = Compiler.unitName) (same : m.Twins m') :
    match u.addMethod m, u'.addMethod m' with
    | .ok v, .ok v' => v.Twins v' ∧ v.name = Compiler.unitName
    | .error _, .error _ => True
    | _, _ => False := by
  have named (u : UnitDraft) (name : String) : u.methods.any (·.ref.name == name) = (u.methods.map (·.ref)).any (·.name == name) := by
    rw [List.any_map]
    rfl
  unfold addMethod
  rw [named, named, twins.refs, same.ref, twins.name]
  cases m.ref.cls != u.name with
  | true => trivial
  | false =>
    cases (u.methods.map (·.ref)).any (·.name == m.ref.name) with
    | true => trivial
    | false =>
      refine ⟨⟨?_, List.rel_append twins.methods (.cons same .nil), fun other => absurd own other⟩, own⟩
      rw [twins.only]

end UnitDraft

namespace EntryPoint

/-- As many arguments as there are parameters, each of which can be converted to the type of its parameter. -/
def Accepts (e : EntryPoint) (h : Heap) (args : List Value) : Prop :=
  args.length = e.params.length ∧ ∃ values, (e.params.zip args).mapM (fun p => coerce h p.1 p.2) = .ok values

theorem capturedRun {host : String} {lib lib' : Library} (e e' : EntryPoint) {n : Nat}
    (captured : e.method.Captured host n e'.method) (params : e'.params = e.params) (timeout : e'.timeout = e.timeout)
    (beside : Library.Beside host lib lib') (confined : lib.Confined host) {w : World} (foreign : w.Foreign host)
    {args : List Value} (accepts : e.Accepts w.heap args) {fuel fuel' : Nat} (enough : fuel + 3 ≤ fuel')
    (ends : (e.run lib fuel args w).1 ≠ .error .never) :
    e'.run lib' fuel' args w = Run.outcome (e.run lib fuel args) w ∧ (e.run lib fuel args w).2.Foreign host := by
  obtain ⟨arity, values, coerced⟩ := accepts
  have deadline : e'.deadline w.heap = e.deadline w.heap := by
    unfold EntryPoint.deadline
    rw [timeout]
  have invoked := runAccepted arity coerced lib fuel
  have started : e'.run lib' fuel' args w = Machine.exec lib' fuel' 1
      { Machine.Activation.start e.method (Machine.slotsOf (.timeout (e.deadline w.heap) :: values)) with method := e'.method } w := by
    rw [runAccepted (e := e') (by rw [params]; exact arity) (by rw [params]; exact coerced), deadline]
    unfold Machine.Activation.start
    rw [captured.locals]
  have outcome := Run.outcomeCongr invoked
  have mirrors := Machine.capturedRuns captured beside confined enough 1
    (a := Machine.Activation.start e.method (Machine.slotsOf (.timeout (e.deadline w.heap) :: values))) rfl (Nat.zero_le _) w foreign
  rw [← outcome, ← started] at mirrors
  have answers : (Run.outcome (e.run lib fuel args) w).1 ≠ .error .never ∧
      (Run.outcome (e.run lib fuel args) w).2 = (e.run lib fuel args w).2 := by
    rw [Run.outcomeIs]
    rcases answer : e.run lib fuel args w with ⟨(f | _) | v, w'⟩
    · exact ⟨nofun, rfl⟩
    · rw [answer] at ends
      exact absurd rfl ends
    · exact ⟨nofun, rfl⟩
  obtain ⟨same, foreign⟩ := mirrors answers.1
  exact ⟨same, answers.2 ▸ foreign⟩

end EntryPoint

namespace Compiler

variable {c c' : Compiler}

structure Twins (c c' : Compiler) : Prop where
  session : c'.session = c.session
  context : c'.context = c.context
  names : c'.signatures.map (·.name) = c.signatures.map (·.name)
  unit : c.unit.Twins c'.unit
  own : c.unit.name = unitName
  confined : c.session.Confined

theorem Lowered.twins {l : Compiler.Lowered} (returns : l.draft.returns = .any) (confined : l.value.Confined unitName)
    {first second : Bool} (later : first = true → second = true) : (l.method first).Twins (l.method second) := by
  cases first with
  | true =>
    rw [later rfl]
    exact .same _
  | false =>
    cases second with
    | true => exact .outcome confined returns
    | false => exact .same _

theorem methodIs (context : ContextId) (e : Entry) (isStatement : Bool) (s : Session) :
    method context { e with isStatement } s = match lower context e s with
      | (.ok l, s') => (.ok (l.method isStatement, l.types), s')
      | (.error err, s') => (.error err, s') := by
  have same : lower context { e with isStatement } = lower context e := rfl
  unfold method
  rw [same]
  rcases answer : lower context e s with ⟨err | l, s'⟩
  · exact Build.bindError answer
  · exact Build.bindOk answer

theorem addTwin (twins : c.Twins c') (e : Entry) (isStatement : Bool) (later : e.isStatement = true → isStatement = true) :
    (c.add e).2.Twins (c'.add { e with isStatement }).2 := by
  have named (c : Compiler) : c.signatures.any (·.name == e.name) = (c.signatures.map (·.name)).any (· == e.name) := by
    rw [List.any_map]
    rfl
  have made := lowerMakes c.context e c.session twins.confined
  have first := methodIs c.context e e.isStatement c.session
  have second := methodIs c.context e isStatement c.session
  unfold add
  dsimp only
  rw [named, named, twins.names, twins.context, twins.session]
  cases (c.signatures.map (·.name)).any (· == e.name) with
  | true => exact twins
  | false =>
    unfold Build.Ends at made
    rcases lowered : lower c.context e c.session with ⟨err | l, s'⟩
    · rw [lowered] at made first second
      rw [show (method c.context e).run c.session = _ from first,
        show (method c.context { e with isStatement }).run c.session = _ from second]
      exact ⟨rfl, rfl, twins.names, twins.unit, twins.own, made⟩
    · rw [lowered] at made first second
      rw [show (method c.context e).run c.session = _ from first,
        show (method c.context { e with isStatement }).run c.session = _ from second]
      obtain ⟨⟨returns, confined⟩, kept⟩ := made
      have added := twins.unit.added twins.own (Lowered.twins returns confined later)
      dsimp only
      cases one : c.unit.addMethod (l.method e.isStatement) with
      | error err =>
        cases other : c'.unit.addMethod (l.method isStatement) with
        | error err' => exact ⟨rfl, rfl, twins.names, twins.unit, twins.own, kept⟩
        | ok v' =>
          rw [one, other] at added
          exact added.elim
      | ok v =>
        cases other : c'.unit.addMethod (l.method isStatement) with
        | error err' =>
          rw [one, other] at added
          exact added.elim
        | ok v' =>
          rw [one, other] at added
          refine ⟨rfl, rfl, ?_, added.1, added.2, kept⟩
          change List.map Signature.name (c'.signatures ++ [_]) = List.map Signature.name (c.signatures ++ [_])
          rw [List.map_append, List.map_append, show c'.signatures.map Signature.name = _ from twins.names]
          rfl

theorem addAllTwin (twins : c.Twins c') (es : List Entry) : (c.addAll es).Twins (c'.addAll es) := by
  unfold addAll
  induction es generalizing c c' with
  | nil => exact twins
  | cons e es ih => exact ih (addTwin twins e e.isStatement id)

theorem newTwin (config : Config) (heap : Heap) : (new config heap).Twins (new config heap) where
  session := rfl
  context := rfl
  names := rfl
  unit := .refl _
  own := rfl
  confined := ⟨List.forall_mem_nil _, List.forall_mem_nil _⟩

theorem addedPair (length : c.signatures.length = c.unit.methods.length) {e : Entry} {isStatement : Bool}
    (taken : (c.add { e with isStatement }).1 = .ok ()) : ∃ l s', lower c.context e c.session = (.ok l, s') ∧
      let c' := (c.add { e with isStatement }).2
      (⟨e.name, l.types, isStatement⟩, l.method isStatement) ∈ c'.signatures.zip c'.unit.methods := by
  obtain ⟨err, s', is, _⟩ | ⟨m, types, s', unit, answer, added, _, is⟩ := c.addCases { e with isStatement }
  · rw [is] at taken
    cases taken
  · rw [methodIs] at answer
    rcases lowered : lower c.context e c.session with ⟨err | l, s''⟩
    · rw [lowered] at answer
      cases answer
    · rw [lowered] at answer
      cases answer
      refine ⟨l, s', rfl, ?_⟩
      rw [is, addMethodIs added]
      dsimp only
      rw [List.zip_append length]
      exact List.mem_append_right _ List.mem_cons_self

/-! ### Building -/

variable {p p' : Program} {w w' : World} {s s' : Session}

theorem buildFrom (open_ : c.session.built = false) (built : c.build = (.ok (p, w), s)) :
    ∃ classes, Load.From c.closing classes ⟨p.library, w⟩ := by
  have ends : Build.Ends (do
      Build.addUnit c.unit
      let loaded ← Load.build
      let timeout := (← get).config.timeout?
      let entries ← Build.lift (c.signatures.mapM (entryPoint loaded.library timeout))
      return (⟨loaded.library, entries.mergeSort fun a b => decide (a.name ≤ b.name)⟩, loaded.world) : Build (Program × World))
      c.session (fun _ _ => True) (fun r _ => ∃ classes, Load.From c.closing classes ⟨r.1.library, r.2⟩) := by
    rw [Build.endsBind]
    refine Build.endsAddUnit open_ (fun _ _ _ => trivial) fun _ _ => ?_
    rw [Build.endsBind]
    refine (Load.buildFrom c.closing).mono ?_ fun _ _ _ => trivial
    intro l s' from_
    rw [Build.endsBind, Build.endsGet, Build.endsBind, Build.endsLift]
    cases c.signatures.mapM (entryPoint l.library s'.config.timeout?) with
    | ok entries => exact from_
    | error err => trivial
  exact ends.ok built

theorem Twins.units (twins : c.Twins c') : List.Forall₂ UnitDraft.Twins (Load.unitsOf c.closing) (Load.unitsOf c'.closing) := by
  have whole : List.Forall₂ UnitDraft.Twins (c.closing.units ++ (Load.constantsUnit? c.closing.constants).toList)
      (c'.closing.units ++ (Load.constantsUnit? c'.closing.constants).toList) := by
    have same (us : List UnitDraft) : List.Forall₂ UnitDraft.Twins us us := List.forall₂_same.2 fun u _ => .refl u
    unfold closing
    rw [twins.session]
    exact List.rel_append (List.rel_append (same _) (.cons twins.unit .nil)) (same _)
  refine List.rel_filter (R := UnitDraft.Twins) ?_ whole
  intro u u' twins
  dsimp only
  rw [twins.empty]

theorem Twins.classes (twins : c.Twins c') {classes classes' : List Class} {l l' : Loaded}
    (is : Load.From c.closing classes l) (is' : Load.From c'.closing classes' l') :
    List.Forall₂ (Class.Twins unitName) classes classes' := by
  have units := twins.units
  have rendered := is.rendered
  have rendered' := is'.rendered
  rw [show c'.closing.frames = c.closing.frames from congrArg (·.frames) twins.session,
    show c'.closing.heap = c.closing.heap from congrArg (·.heap) twins.session,
    show c'.closing.config = c.closing.config from congrArg (·.config) twins.session] at rendered'
  clear is is'
  generalize Load.unitsOf c.closing = us, Load.unitsOf c'.closing = us' at units rendered rendered'
  induction units generalizing classes classes' with
  | nil =>
    cases rendered
    cases rendered'
    exact .nil
  | cons first _ ih =>
    obtain _ | ⟨one, rest⟩ := rendered
    obtain _ | ⟨one', rest'⟩ := rendered'
    exact .cons (first.rendered one one') (ih rest rest')

theorem Twins.library (twins : c.Twins c') {classes : List Class} {l : Loaded} (is : Load.From c.closing classes l) :
    l.library.Confined unitName := by
  intro cls loaded other method inside
  rw [is.library] at loaded
  obtain ⟨i, _, at_⟩ := List.mem_filterMap.1 loaded
  obtain ⟨u, member, rendered⟩ := Load.pairedLeft is.rendered (List.mem_of_getElem? at_)
  obtain ⟨methods, same⟩ := UnitDraft.renderIs rendered
  obtain ⟨m, draft, rendered⟩ := Load.pairedLeft methods inside
  have name : cls.name = u.name := by rw [same]
  obtain old | rfl | constants := closingUnits member
  · exact (twins.confined.units u old m draft).rendered rendered
  · exact absurd (name.trans twins.own) other
  · rw [(constantsMember.1 constants).2] at draft
    contradiction

theorem startForeign (heap : Heap) (foreign : heap.Foreign unitName) (alike : (World.empty heap).Alike w) : w.Foreign unitName where
  heap := by
    rw [alike.heap]
    exact foreign
  linker := by
    rw [alike.linker]
    exact List.forall_mem_nil _
  sites := by
    rw [alike.sites]
    exact List.forall_mem_nil _

def Captures (expression statement : Run Value) (w : World) : Prop :=
  (∀ v w', expression w = (.ok v, w') → statement w = (.ok (.success v), w')) ∧
    ∀ f w', expression w = (.error (.fault f), w') → statement w = (.ok (.failure f), w')

/-- Two programs of the same entry points, one of which is an expression in the one and a statement in the other: they
start in the same state, and wherever the arguments are accepted and the expression returns or faults, the statement
returns the outcome and leaves the same state. No object is ever of the class of entry points. -/
theorem statementIsolates (config : Config) (heap : Heap) (before after : List Entry) (e : Entry)
    (valued : ∀ x ∈ before ++ e :: after, EntryValued x)
    (expression : (((new config heap).addAll before).add { e with isStatement := false }).1 = .ok ())
    (statement : (((new config heap).addAll before).add { e with isStatement := true }).1 = .ok ())
    {p p' : Program} {w w' : World} {s s' : Session}
    (built : ((new config heap).addAll (before ++ { e with isStatement := false } :: after)).build = (.ok (p, w), s))
    (built' : ((new config heap).addAll (before ++ { e with isStatement := true } :: after)).build = (.ok (p', w'), s')) :
    w' = w ∧ (heap.Foreign unitName → w.Foreign unitName) ∧ ∃ point, p.entry? e.name = some point ∧
      ∀ w₀ : World, w₀.Foreign unitName → ∀ args, point.Accepts w₀.heap args → ∀ n m, n + 3 ≤ m →
        Captures (p.run n e.name args) (p'.run m e.name args) w₀ ∧
          ((p.run n e.name args w₀).1 ≠ .error .never → (p.run n e.name args w₀).2.Foreign unitName) := by
  have valuedAs : ∀ isStatement, ∀ x ∈ before ++ { e with isStatement } :: after, EntryValued x := by
    intro isStatement x inside
    rw [List.mem_append, List.mem_cons] at inside
    obtain old | rfl | new := inside
    · exact valued x (List.mem_append_left _ old)
    · exact valued e (List.mem_append_right _ List.mem_cons_self)
    · exact valued x (List.mem_append_right _ (List.mem_cons_of_mem _ new))
  obtain ⟨sound, later⟩ := compiledLater config heap (valuedAs false)
  obtain ⟨sound', _⟩ := compiledLater config heap (valuedAs true)
  have lengths := (compiledSound config heap fun x inside => valued x (List.mem_append_left _ inside)).1.methods.length_eq
  have twins : ((new config heap).addAll (before ++ { e with isStatement := false } :: after)).Twins
      ((new config heap).addAll (before ++ { e with isStatement := true } :: after)) := by
    rw [addAllSplit, addAllSplit]
    exact addAllTwin (addTwin (addAllTwin (newTwin config heap) before) { e with isStatement := false } true nofun) after
  have twinsBefore := addAllTwin (newTwin config heap) before
  -- the tree is lowered once, and its methods stand in the units of both
  obtain ⟨l, s₁, lowered, pair⟩ := addedPair lengths expression
  obtain ⟨l', _, lowered', pair'⟩ := addedPair lengths statement
  cases lowered.symm.trans lowered'
  obtain ⟨⟨returns, confined⟩, _⟩ := (lowerMakes _ e _ twinsBefore.confined).ok lowered
  have lengthsAs : ∀ isStatement, (((new config heap).addAll before).add { e with isStatement }).2.signatures.length =
      (((new config heap).addAll before).add { e with isStatement }).2.unit.methods.length := fun isStatement =>
    (addPairs { e with isStatement } lengths).1
  have pair := addAllPairs after (lengthsAs false) _ pair
  have pair' := addAllPairs after (lengthsAs true) _ pair'
  rw [← addAllSplit] at pair pair'
  generalize (new config heap).addAll (before ++ { e with isStatement := false } :: after) = c at *
  generalize (new config heap).addAll (before ++ { e with isStatement := true } :: after) = c' at *
  have builds : c.Builds p w := by
    have ends := buildEnds sound (fun _ h => h) fun _ _ _ ready => ready
    rw [built] at ends
    exact ends.2
  have builds' : c'.Builds p' w' := by
    have ends := buildEnds sound' (fun _ h => h) fun _ _ _ ready => ready
    rw [built'] at ends
    exact ends.2
  obtain ⟨classes, from_⟩ := buildFrom sound.session.unbuilt built
  obtain ⟨classes', from'⟩ := buildFrom sound'.session.unbuilt built'
  have all := twins.classes from_ from'
  obtain ⟨method, rendered, found⟩ := builds.entries _ _ pair
  obtain ⟨method', rendered', found'⟩ := builds'.entries _ _ pair'
  rw [twins.session] at rendered' found'
  obtain ⟨⟨n, captured⟩, _⟩ := MethodDraft.renderCaptured confined returns rendered rendered'
  refine ⟨?_, ?_, _, found, ?_⟩
  · refine from_.worldTwin from' (congrArg (·.heap) twins.session) (twins.units.imp fun u u' same => ?_) all
    exact ⟨same.name, by rw [same.only]⟩
  · intro foreign
    have same : c.closing.heap = heap := later.heap
    exact startForeign heap foreign (same ▸ builds.loaded.world)
  · intro w₀ foreign args accepts k m enough
    have run : p.run k e.name args = (c.pointOf ⟨e.name, l.types, false⟩ method).run p.library k args := by
      unfold Program.run
      rw [found]
      rfl
    have run' : p'.run m e.name args = (c.pointOf ⟨e.name, l.types, true⟩ method').run p'.library m args := by
      unfold Program.run
      rw [found']
      rfl
    rw [run, run']
    have captures := EntryPoint.capturedRun (c.pointOf ⟨e.name, l.types, false⟩ method)
      (c.pointOf ⟨e.name, l.types, true⟩ method') captured rfl rfl (from_.beside from' all) (twins.library from_)
      foreign accepts enough
    refine ⟨⟨?_, ?_⟩, fun ends => (captures ends).2⟩
    · intro v w₁ answer
      rw [(captures (by rw [answer]; nofun)).1, Run.outcomeIs, answer]
    · intro f w₁ answer
      rw [(captures (by rw [answer]; nofun)).1, Run.outcomeIs, answer]

def quotientEntry : Entry where
  name := "quotient"
  params := [("a", .scalar .int32), ("b", .scalar .int32)]
  node := .mk .div [.node (.mk .argument [.name "a"] .unknown), .node (.mk .argument [.name "b"] .unknown)] .unknown
  isStatement := false

theorem quotientIsolates : ∃ p w s p' s', ((new .default .empty).addAll [quotientEntry]).build = (.ok (p, w), s) ∧
    ((new .default .empty).addAll [{ quotientEntry with isStatement := true }]).build = (.ok (p', w), s') ∧
      (p'.run 100 "quotient" [.int 7, .int 2] w).1 = .ok (.success (.boxed (.int 3))) ∧
        (p'.run 100 "quotient" [.int 7, .int 0] w).1 = .ok (.failure .divideByZero) := by
  have runs : (match ((new .default .empty).addAll [quotientEntry]).build with
      | (.ok (p, w), _) => some ((p.entry? "quotient").map (·.params), (p.run 50 "quotient" [.int 7, .int 2] w).1,
          (p.run 50 "quotient" [.int 7, .int 0] w).1)
      | (.error _, _) => none) = some (some [.prim .int32, .prim .int32], .ok (.boxed (.int 3)), .error (.fault .divideByZero)) := by
    decide +kernel
  have builds : (match ((new .default .empty).addAll [{ quotientEntry with isStatement := true }]).build with
      | (.ok _, _) => true
      | (.error _, _) => false) = true := by decide +kernel
  have valued : ∀ x ∈ [] ++ quotientEntry :: [], EntryValued x := by
    intro x inside
    rw [List.mem_singleton.1 inside]
    simp [EntryValued, quotientEntry, ValueType.Valued, Node.Valued, Arg.ValuedAll, Arg.Valued]
  have empty : Heap.empty.Foreign unitName := fun a => by simp [Heap.object, Heap.empty, unitName]
  rcases built : ((new .default .empty).addAll [quotientEntry]).build with ⟨err | ⟨p, w⟩, s⟩
  · rw [built] at runs
    contradiction
  rcases built' : ((new .default .empty).addAll [{ quotientEntry with isStatement := true }]).build with ⟨err | ⟨p', w'⟩, s'⟩
  · rw [built'] at builds
    contradiction
  obtain ⟨rfl, foreign, point, found, isolated⟩ := statementIsolates .default .empty [] [] quotientEntry valued
    (by decide +kernel) (by decide +kernel) built built'
  rw [built] at runs
  dsimp only at runs
  rw [show p.entry? "quotient" = _ from found] at runs
  obtain ⟨params, value, fault⟩ : point.params = [.prim .int32, .prim .int32] ∧
      (p.run 50 "quotient" [.int 7, .int 2] w').1 = .ok (.boxed (.int 3)) ∧
        (p.run 50 "quotient" [.int 7, .int 0] w').1 = .error (.fault .divideByZero) := by
    simpa using runs
  have accepts : ∀ b ∈ [2, 0], point.Accepts w'.heap [.int 7, .int b] := by
    unfold EntryPoint.Accepts
    rw [params, List.forall_mem_cons, List.forall_mem_singleton]
    exact ⟨⟨rfl, _, rfl⟩, rfl, _, rfl⟩
  obtain ⟨⟨returns, _⟩, _⟩ := isolated w' (foreign empty) _ (accepts 2 (by simp)) 50 100 (by decide)
  obtain ⟨⟨_, raises⟩, _⟩ := isolated w' (foreign empty) _ (accepts 0 (by simp)) 50 100 (by decide)
  refine ⟨p, w', s, p', s', rfl, rfl, ?_, ?_⟩
  · exact congrArg Prod.fst (returns _ _ (Prod.ext value rfl))
  · exact congrArg Prod.fst (raises _ _ (Prod.ext fault rfl))

def equalLists : Heap :=
  ((Heap.empty.newList #[.boxed (.long 1), .string "x"]).2.newList #[.boxed (.byte 1), .string "x"]).2

def listEntry : Entry := ⟨"other", [], .mk .literal [.value (.list 1)] .unknown, false⟩

def firstEntry (isStatement : Bool) : Entry where
  name := "first"
  params := []
  node := .mk .cast [.node (.mk .index [.node (.mk .literal [.value (.list 0)] .unknown),
    .node (.mk .literal [.value (.int 0)] .unknown)] .unknown), .type (.optional (.scalar .int64))] .unknown
  isStatement

def answerAt? (c : Compiler) (i : Nat) (args : List Value) (fuel : Nat) : Option (String × Except Stop Value) :=
  match c.build.1, (c.signatures.zip c.unit.methods)[i]? with
  | .ok (p, w), some (sig, m) => match m.render c.session.frames c.session.heap c.session.config.verify with
    | .ok method => some (sig.name, ((c.pointOf sig method).run p.library fuel args w).1)
    | .error _ => none
  | _, _ => none

theorem answersAt {config : Config} {heap : Heap} {es : List Entry} (valued : ∀ e ∈ es, EntryValued e) {i : Nat}
    {args : List Value} {fuel : Nat} {name : String} {answer : Except Stop Value}
    (is : ((new config heap).addAll es).answerAt? i args fuel = some (name, answer)) :
    ∃ p w s, ((new config heap).addAll es).build = (.ok (p, w), s) ∧ (p.run fuel name args w).1 = answer := by
  have ends := buildEnds (compiledSound config heap valued).1 (fun _ h => h) fun _ _ _ ready => ready
  generalize (new config heap).addAll es = c at is ends
  unfold answerAt? at is
  rcases built : c.build with ⟨err | ⟨p, w⟩, s⟩
  · rw [built] at is
    cases is
  rw [built] at is ends
  rcases at_ : (c.signatures.zip c.unit.methods)[i]? with _ | ⟨sig, m⟩
  · rw [at_] at is
    cases is
  obtain ⟨method, rendered, found⟩ := ends.2.entries sig m (List.mem_of_getElem? at_)
  rw [at_] at is
  simp only [rendered, Option.some.injEq, Prod.mk.injEq] at is
  obtain ⟨rfl, rfl⟩ := is
  refine ⟨p, w, s, rfl, ?_⟩
  unfold Program.run
  rw [found]
  rfl

/-- An expression and the statement of its tree, in programs of which one has another entry point: its list is equal to the
one that is written here and comes first, so that the statement reads an element of that. -/
theorem sharedLiteralParts : ∃ p w s p' w' s',
    ((new .default equalLists).addAll [firstEntry false]).build = (.ok (p, w), s) ∧
    ((new .default equalLists).addAll [listEntry, firstEntry true]).build = (.ok (p', w'), s') ∧
    (p.run 100 "first" [] w).1 = .ok (.boxed (.long 1)) ∧
    (p'.run 100 "first" [] w').1 = .ok (.failure (.classCast "Long" "Byte")) := by
  have valued (isStatement : Bool) : EntryValued (firstEntry isStatement) := by
    simp [EntryValued, firstEntry, Node.Valued, Arg.ValuedAll, Arg.Valued, ValueType.Valued]
  have valued' : EntryValued listEntry := by simp [EntryValued, listEntry, Node.Valued, Arg.ValuedAll, Arg.Valued]
  have alone : ((new .default equalLists).addAll [firstEntry false]).answerAt? 0 [] 100 =
      some ("first", .ok (.boxed (.long 1))) := by decide +kernel
  have beside : ((new .default equalLists).addAll [listEntry, firstEntry true]).answerAt? 1 [] 100 =
      some ("first", .ok (.failure (.classCast "Long" "Byte"))) := by decide +kernel
  obtain ⟨p, w, s, built, alone⟩ := answersAt (List.forall_mem_singleton.2 (valued false)) alone
  obtain ⟨p', w', s', built', beside⟩ :=
    answersAt (List.forall_mem_cons.2 ⟨valued', List.forall_mem_singleton.2 (valued true)⟩) beside
  exact ⟨p, w, s, p', w', s', built, built', alone, beside⟩

end Compiler

end QueryMachine
