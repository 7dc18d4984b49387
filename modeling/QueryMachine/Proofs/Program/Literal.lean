import QueryMachine.Proofs.Program.Drawing
import QueryMachine.Proofs.Machine.Course
import QueryMachine.Proofs.Program.Invocation
import QueryMachine.Proofs.Program.Verified

/-! What literals of lists, maps and records read. Those of one type that are equal share the value of the first, so each
reads what was written in it up to equality, and just that where no other literal of its type equals it. -/
namespace QueryMachine

open Build (Ends)
open Machine (Moment Scene Thread push)

def Value.isCollection : Value → Bool
  | .list _ | .map _ | .record _ => true
  | _ => false

variable {v : Value} {P : Value → Prop}

theorem pushCollection (collection : v.isCollection = true) {st : List Value} : push v st = v :: st := by
  cases v with
  | list _ | map _ | record _ => rfl
  | _ => contradiction

namespace Heap

theorem equalsItself (h : Heap) (collection : v.isCollection = true) : h.equals v v = true := by
  cases v with
  | list a => simp [equals, equalWithin, equalBy]
  | map a => simp [equals, equalWithin, equalBy]
  | record a => simp [equals, equalWithin, equalBy]
  | _ => contradiction

theorem equalsCollection {h : Heap} {u : Value} (collection : v.isCollection = true) (same : h.equals v u = true) :
    u.isCollection = true := by
  unfold equals equalWithin at same
  cases v with
  | list a => cases u <;> first | rfl | exact absurd same (by simp [equalBy, equalNumbers, Value.integer?, Value.number?])
  | map a => cases u <;> first | rfl | exact absurd same (by simp [equalBy, equalNumbers, Value.integer?, Value.number?])
  | record a => cases u <;> first | rfl | exact absurd same (by simp [equalBy, equalNumbers, Value.integer?, Value.number?])
  | _ => contradiction

def alike (h : Heap) (v u : Value) : Bool :=
  h.literalType u = h.literalType v && h.hashKey u = h.hashKey v && h.equals v u

end Heap

namespace Constants

variable {h : Heap} {c c' : Constants} {type : Ty} {k : Hoisted}

theorem sharedLater (longer : c.hoisted <+: c'.hoisted) (found : c.shared? h type v = some k) :
    c'.shared? h type v = some k := by
  obtain ⟨rest, is⟩ := longer
  unfold shared? at found ⊢
  rw [← is, List.find?_append, found]
  rfl

theorem sharedIs (found : c.shared? h type v = some k) :
    k ∈ c.hoisted ∧ k.type = type ∧ h.hashKey k.value = h.hashKey v ∧ h.equals v k.value = true := by
  have tested := List.find?_some found
  simp only [Bool.and_eq_true, decide_eq_true_eq] at tested
  exact ⟨List.mem_of_find?_eq_some found, tested.1.1, tested.1.2, tested.2⟩

theorem hoistShared (collection : v.isCollection = true) (type : Ty) :
    ∃ k, (c.hoist h type v).2.shared? h type v = some k ∧ (c.hoist h type v).1 = ⟨type, Emit.op (.getStatic k.field)⟩ := by
  unfold hoist
  cases found : c.shared? h type v with
  | some k => exact ⟨k, found, rfl⟩
  | none =>
    refine ⟨⟨⟨unitName, "c" ++ toString c.size, type.rep⟩, type, v⟩, ?_, rfl⟩
    unfold shared? at found ⊢
    rw [List.find?_append, found]
    simp [h.equalsItself collection]

end Constants

namespace Compiler

variable {c : Compiler} {k : Hoisted}

def kept? (c : Compiler) (v : Value) : Option Hoisted :=
  c.session.constants.shared? c.session.heap (c.session.heap.literalType v) v

theorem literalLowers (collection : v.isCollection = true) (location : Location) (env : Lowering.Env) (s : Session) :
    ∃ k s', Lowering.ofNode (.mk .literal [.value v] location) env s =
        (.ok ⟨s.heap.literalType v, Emit.op (.getStatic k.field)⟩, s') ∧
      s'.constants.shared? s.heap (s.heap.literalType v) v = some k ∧ s'.heap = s.heap := by
  have drawn : s.constants.literal s.heap v = s.constants.hoist s.heap (s.heap.literalType v) v := by
    cases v with
    | list _ | map _ | record _ => rfl
    | _ => contradiction
  obtain ⟨k, found, is⟩ := s.constants.hoistShared (h := s.heap) collection (s.heap.literalType v)
  have answer : Build.constant v s = (.ok ⟨s.heap.literalType v, Emit.op (.getStatic k.field)⟩,
      { s with constants := (s.constants.hoist s.heap (s.heap.literalType v) v).2 }) := by
    rw [← is]
    unfold Build.constant
    change (Except.ok (s.constants.literal s.heap v).1, { s with constants := (s.constants.literal s.heap v).2 }) = _
    rw [drawn]
  refine ⟨k, { s with constants := (s.constants.hoist s.heap (s.heap.literalType v) v).2 }, ?_, found, rfl⟩
  simp only [Lowering.ofNode, Lowering.ofArgs, Lowering.ofArg, Lowering.located]
  split
  · exact answer
  · rw [Account.tryLocated]
    have applied : Lowering.apply ⟨.literal, [.value v]⟩ location env s = Build.constant v s := rfl
    rw [applied, answer]

theorem literalKept (collection : v.isCollection = true) {location : Location} {env : Lowering.Env} {s s' : Session}
    {x : Expr} (lowered : Lowering.ofNode (.mk .literal [.value v] location) env s = (.ok x, s'))
    (later : s'.Later c.session) :
    ∃ k, c.kept? v = some k ∧ x = ⟨c.session.heap.literalType v, Emit.op (.getStatic k.field)⟩ := by
  obtain ⟨k, s'', answer, found, same⟩ := literalLowers collection location env s
  cases lowered.symm.trans answer
  have heap : c.session.heap = s.heap := later.heap.trans same
  unfold kept?
  rw [heap]
  exact ⟨k, Constants.sharedLater later.constants found, rfl⟩

variable {p : Program} {w : World}

theorem Builds.constant (builds : c.Builds p w) (good : c.session.Good) (inside : k ∈ c.session.constants.hoisted) :
    k.field.cls = Constants.unitName ∧ w.static? Constants.unitName k.field.name = some k.value ∧
      ∃ u ∈ Load.unitsOf c.closing, u.name = Constants.unitName := by
  obtain ⟨i, at_⟩ := List.getElem?_of_mem inside
  have field := good.constants i k at_
  have some : c.closing.constants.hoisted ≠ [] := List.ne_nil_of_mem inside
  have unit := (constantsMember (k := c.closing.constants)).2 ⟨some, rfl⟩
  have loaded : _ ∈ Load.unitsOf c.closing :=
    List.mem_filter.2 ⟨List.mem_append_right _ unit, by simpa [UnitDraft.isEmpty, UnitDraft.new] using some⟩
  refine ⟨by rw [field], ?_, _, loaded, rfl⟩
  exact builds.loaded.statics _ loaded (k.field.name, k.value)
    (List.mem_map_of_mem (f := fun k : Hoisted => (k.field.name, k.value)) inside)

theorem Builds.reads (builds : c.Builds p w) (sound : c.Sound Renderable) (room : ¬ c.session.Full)
    (inside : k ∈ c.session.constants.hoisted) {θ : Scene} (program : θ.library = p.library) {a : Moment}
    (statics : a.world.statics = w.statics) (here : θ.method.ops[a.pc]? = some (.getStatic k.field)) :
    θ.Reaches a ⟨a.pc + 1, push k.value a.stack, a.locals, a.world⟩ := by
  have complete := closingComplete sound room fun _ _ _ ready => ready
  obtain ⟨cls, value, u, loaded, named⟩ := builds.constant sound.session inside
  obtain ⟨unit, found, renders⟩ := builds.loaded.classFound complete.distinct loaded
  rw [named] at found
  refine Scene.outers (p := a.pc) here rfl fun call apply => ?_
  have known : Machine.classNamed θ.library k.field.cls = .ok unit := by
    unfold Machine.classNamed
    rw [program, cls, found]
  have held : a.world.static? unit.name k.field.name = some k.value := by
    unfold World.static?
    rw [statics, renders.name, named]
    exact value
  change ((Run.lift (Machine.classNamed θ.library k.field.cls)) >>= fun found =>
    (get : Run World) >>= fun w => Run.orFault (.propertyNotFound k.field.text) (w.static? found.name k.field.name) >>= fun v =>
      return push v a.stack : Run Machine.Stack) a.world = _
  rw [known]
  change (Run.orFault (.propertyNotFound k.field.text) (a.world.static? unit.name k.field.name) >>= fun v =>
    return push v a.stack : Run Machine.Stack) a.world = _
  rw [held]
  rfl

/-! ### Entry points that are a literal -/

theorem literalAdvances (collection : v.isCollection = true) {s : Session} (good : s.Good) (location : Location)
    (env : Lowering.Env) :
    Advances (Lowering.ofNode (.mk .literal [.value v] location) env) s fun x s' =>
      ∃ k, s'.constants.shared? s'.heap (s'.heap.literalType v) v = some k ∧
        x = ⟨s'.heap.literalType v, Emit.op (.getStatic k.field)⟩ := by
  have made : Advances (Lowering.ofNode (.mk .literal [.value v] location) env) s fun _ _ => True := by
    rw [Lowering.ofNode]
    refine Account.locatedAdvances location ((constantAdvances good v).mono fun _ _ _ _ _ => ?_)
    trivial
  obtain ⟨k, s', answer, found, same⟩ := literalLowers collection location env s
  obtain ⟨_, later, good⟩ := Ends.ok made answer
  unfold Advances Ends
  rw [answer]
  rw [← same] at found
  exact ⟨⟨k, found, by rw [same]⟩, later, good⟩

theorem literalMethod (collection : v.isCollection = true) {s : Session} (good : s.Good) {context : ContextId} {e : Entry}
    (params : ∀ p ∈ e.params, p.2.Valued) {location : Location} (node : e.node = .mk .literal [.value v] location)
    (returning : e.isStatement = false) :
    Advances (method context e) s fun r s' => Drafted e s' r.1 r.2 ∧
      ∃ k, s'.constants.shared? s'.heap (s'.heap.literalType v) v = some k ∧
        r.1.Ready Refusal s'.Knows s'.frames (Returned (Single (.getStatic k.field)) (s'.heap.literalType v)) := by
  unfold method
  rw [lowerIs, node, returning]
  refine advancesBind (lowerByAdvances good params fun m types s' _ _ _ _ good _ _ _ _ =>
    literalAdvances collection good location _) ?_
  intro l s' _ good ⟨drafted, k, found, is⟩
  have inside := (Constants.sharedIs found).1
  obtain ⟨i, at_⟩ := List.getElem?_of_mem inside
  have field := good.constants i k at_
  have type := (Constants.sharedIs found).2.1
  have writes : l.value.Writes Refusal s'.Knows (Visible l.draft.frame [] s'.frames) (Single (.getStatic k.field)) := by
    rw [is]
    refine staticWrites (Ty.regularLiteral _ v) (by rw [field, type]) ?_
    rw [field]
    exact .inr (.inr ⟨rfl, List.ne_nil_of_mem inside⟩)
  have ready := drafted.ready writes false
  rw [is] at ready
  exact advancesPure good ⟨{ drafted with }, k, found, ready⟩

theorem Builds.literalAnswers (builds : c.Builds p w) (sound : c.Sound Renderable) (room : ¬ c.session.Full) {e : Entry}
    {m : MethodDraft} {types : List Ty} (drafted : Drafted e c.session m types) (collection : v.isCollection = true)
    (found : c.kept? v = some k)
    (ready : m.Ready Refusal c.session.Knows c.session.frames
      (Returned (Single (.getStatic k.field)) (c.session.heap.literalType v)))
    {method : Method} (rendered : m.render c.session.frames c.session.heap c.session.config.verify = .ok method)
    (timeout : Option Nat) {args values : List Value} {w' : World} (statics : w'.statics = w.statics)
    (arity : args.length = types.length)
    (coerced : (types.zip args).mapM (fun x => EntryPoint.coerce w'.heap x.1 x.2) = .ok values) :
    ∃ n, ∀ fuel, n ≤ fuel →
      EntryPoint.run p.library fuel ⟨e.name, method, types, false, timeout⟩ args w' = (.ok k.value, w') := by
  have answer := ready c.session.frames (.refl _) c.session.heap c.session.config.verify
  rw [rendered] at answer
  obtain ⟨_, ⟨X, is, rfl, unguarded⟩, lays, _, _⟩ := answer
  cases show X = [.op (.getStatic k.field)] from is
  have plain : Asm.box (c.session.heap.literalType v) = [] := by
    cases v with
    | list _ | map _ | record _ => rfl
    | _ => contradiction
  have trailer : m.trailer = [] := by
    unfold MethodDraft.trailer
    rw [drafted.returns]
    rfl
  rw [trailer, plain] at lays
  obtain ⟨first, second, _⟩ := Method.Lays.spans lays
  let start := Machine.Activation.start method (Machine.slotsOf (.timeout (EntryPoint.deadline
    ⟨e.name, method, types, false, timeout⟩ w'.heap) :: values))
  let θ : Thread := ⟨p.library, method, 1, unguarded⟩
  have inside := (Constants.sharedIs found).1
  have held := Heap.equalsCollection collection (Constants.sharedIs found).2.2.2
  have reads := builds.reads sound room inside (θ := θ.scene) rfl (a := ⟨0, [], start.locals, w'⟩) statics first
  rw [pushCollection held] at reads
  have course : θ.Course ⟨0, [], start.locals, w'⟩ (.ok ⟨1, [k.value], start.locals, w'⟩) := reads
  obtain ⟨n, runs⟩ := course.finishes (Thread.finishesReturn (θ := θ) second)
  refine ⟨n, fun fuel enough => ?_⟩
  rw [EntryPoint.runAccepted (e := ⟨e.name, method, types, false, timeout⟩) arity coerced]
  have ends := runs (fuel - n)
  rw [Nat.sub_add_cancel enough] at ends
  exact ends

theorem literalEntry (config : Config) (heap : Heap) {before after : List Entry} {e : Entry} {location : Location}
    (valued : ∀ x ∈ before ++ e :: after, EntryValued x) (collection : v.isCollection = true)
    (node : e.node = .mk .literal [.value v] location) (returning : e.isStatement = false)
    (accepted : (((new config heap).addAll before).add e).1 = .ok ()) :
    let c := (new config heap).addAll (before ++ e :: after)
    ∃ m types k, (⟨e.name, types, e.isStatement⟩, m) ∈ c.signatures.zip c.unit.methods ∧ Drafted e c.session m types ∧
      c.kept? v = some k ∧ m.Ready Refusal c.session.Knows c.session.frames
        (Returned (Single (.getStatic k.field)) (c.session.heap.literalType v)) := by
  intro c
  have valuedFirst : ∀ x ∈ before, EntryValued x := fun x inside => valued x (List.mem_append_left _ inside)
  have valuedRest : ∀ x ∈ e :: after, EntryValued x := fun x inside => valued x (List.mem_append_right _ inside)
  have first := (compiledSound config heap valuedFirst).1
  have split : c = _ := addAllSplit (new config heap) before after e
  generalize (new config heap).addAll before = c₁ at first split accepted
  obtain ⟨m, types, s', answer, later, pair⟩ := acceptedStands first renderableLasts
    (fun x inside s good => methodRenders (valuedRest x inside) good) accepted
  have params := (valuedRest e List.mem_cons_self).1
  obtain ⟨⟨drafted, k, found, ready⟩, _⟩ := Ends.ok (literalMethod collection first.session params node returning) answer
  rw [← split] at later pair
  refine ⟨m, types, k, pair, drafted.later later, ?_, ?_⟩
  · unfold kept?
    rw [later.heap]
    exact Constants.sharedLater later.constants found
  · rw [later.heap]
    exact ready.mono (fun _ h => h) later.knows later.frames fun _ _ _ h => h

/-- In a program that was built of any entry points that do not mention void, some of them perhaps refused: wherever a list,
map or record was written, the code reads one constant, and an entry point that is such a literal answers with its value.
That is a literal of the same type that is equal, and the one written here where no other of its type is. It stands with the
first entry points that had one: what is kept for a literal by then is what every later one reads. -/
theorem literalsReadFirstAlike (config : Config) (heap : Heap) {es : List Entry} (valued : ∀ e ∈ es, EntryValued e)
    {p : Program} {w : World} {last : Session} (built : ((new config heap).addAll es).build = (.ok (p, w), last))
    (collection : v.isCollection = true) :
    let c := (new config heap).addAll es
    let written := es.flatMap fun e => e.node.literals
    (∀ location env s x s', Lowering.ofNode (.mk .literal [.value v] location) env s = (.ok x, s') → s'.Later c.session →
      ∃ k, c.kept? v = some k ∧ x = ⟨heap.literalType v, Emit.op (.getStatic k.field)⟩) ∧
    (∀ k, c.kept? v = some k →
      k.value ∈ written ∧ heap.alike v k.value = true ∧ ((∀ u ∈ written, heap.alike v u = true → u = v) → k.value = v) ∧
      ∀ (θ : Scene) (a : Moment), θ.library = p.library → a.world.statics = w.statics →
        θ.method.ops[a.pc]? = some (.getStatic k.field) →
          θ.Reaches a ⟨a.pc + 1, k.value :: a.stack, a.locals, a.world⟩) ∧
    (∀ before after k, es = before ++ after → ((new config heap).addAll before).kept? v = some k →
      c.kept? v = some k ∧ k.value ∈ before.flatMap fun e => e.node.literals) ∧
    ∀ before e after location, es = before ++ e :: after → e.node = .mk .literal [.value v] location →
      e.isStatement = false → (((new config heap).addAll before).add e).1 = .ok () →
        ∃ k point, c.kept? v = some k ∧ p.entry? e.name = some point ∧ ∀ args values w', w'.statics = w.statics →
          args.length = point.params.length →
            (point.params.zip args).mapM (fun x => EntryPoint.coerce w'.heap x.1 x.2) = .ok values →
              ∃ n, ∀ fuel, n ≤ fuel → p.run fuel e.name args w' = (.ok k.value, w') := by
  intro c written
  obtain ⟨sound, later⟩ : c.Sound Renderable ∧ (new config heap).session.Later c.session := compiledLater config heap valued
  have same : c.session.heap = heap := later.heap
  have ends := buildEnds sound (fun _ h => h) fun _ _ _ ready => ready
  rw [show c.build = _ from built] at ends
  obtain ⟨room, builds⟩ := ends
  have shares (es : List Entry) : ((new config heap).addAll es).session.Shares (· ∈ es.flatMap fun e => e.node.literals) :=
    addAllShares (fun e inside u member => List.mem_flatMap.2 ⟨e, inside, member⟩) nofun
  refine ⟨?_, ?_, ?_, ?_⟩
  · intro location env s x s' lowered onward
    rw [← same]
    exact literalKept collection lowered onward
  · intro k found
    obtain ⟨inside, type, hash, equal⟩ := Constants.sharedIs found
    obtain ⟨typed, member⟩ := shares es k inside
    have alike : heap.alike v k.value = true := by
      unfold Heap.alike
      rw [← same, ← typed, type, hash, equal]
      simp
    refine ⟨member, alike, fun only => only _ member alike, ?_⟩
    intro θ a program statics here
    have reads := builds.reads sound room inside program statics here
    have held := Heap.equalsCollection collection equal
    rwa [pushCollection held] at reads
  · intro before after k split found
    rw [split, List.forall_mem_append] at valued
    have first := (compiledSound config heap valued.1).1
    have onward := (addAllSound first renderableLasts fun e inside _ good => methodRenders (valued.2 e inside) good).2
    have whole : c = ((new config heap).addAll before).addAll after := by
      rw [show c = _ from congrArg (new config heap).addAll split]
      exact List.foldl_append
    rw [whole]
    refine ⟨?_, (shares before k (Constants.sharedIs found).1).2⟩
    unfold kept? at found ⊢
    rw [onward.heap]
    exact Constants.sharedLater onward.constants found
  · intro before e after location split node returning accepted
    have valued' : ∀ x ∈ before ++ e :: after, EntryValued x := split ▸ valued
    have entry := literalEntry config heap valued' collection node returning accepted
    rw [← split] at entry
    obtain ⟨m, types, k, pair, drafted, found, ready⟩ := entry
    obtain ⟨method, rendered, there⟩ := builds.entries _ _ pair
    refine ⟨k, _, found, there, ?_⟩
    intro args values w' statics arity coerced
    rw [returning] at there
    obtain ⟨n, runs⟩ := builds.literalAnswers sound room drafted collection found ready rendered
      c.session.config.timeout? statics arity coerced
    refine ⟨n, fun fuel enough => ?_⟩
    unfold Program.run
    rw [there]
    exact runs fuel enough

def eitherOrder : Heap :=
  let a := (Value.string "a", Value.boxed (.int 1))
  let b := (Value.string "b", Value.boxed (.int 2))
  ((Heap.empty.newMap [a, b]).2.newMap [b, a]).2

def mapEntry (name : String) (addr : Address) : Entry :=
  ⟨name, [], .mk .literal [.value (.map addr)] .unknown, false⟩

/-- The second entry point answers with the map that the first was given. -/
theorem laterReadsFirst : eitherOrder.map 1 ≠ eitherOrder.map 0 ∧
    ∃ p w s, ((new .default eitherOrder).addAll [mapEntry "first" 0, mapEntry "second" 1]).build = (.ok (p, w), s) ∧
      ∃ n, ∀ fuel, n ≤ fuel → p.run fuel "second" [] w = (.ok (.map 0), w) := by
  refine ⟨by decide +kernel, ?_⟩
  have succeeds : ((new .default eitherOrder).addAll [mapEntry "first" 0, mapEntry "second" 1]).build.1.isOk = true := by
    decide +kernel
  have signatures : ((new .default eitherOrder).addAll [mapEntry "first" 0, mapEntry "second" 1]).signatures.map
      (fun sig => (sig.name, sig.params)) = [("first", []), ("second", [])] := by decide +kernel
  have kept : (((new .default eitherOrder).addAll [mapEntry "first" 0, mapEntry "second" 1]).kept? (.map 1)).map (·.value) =
      some (.map 0) := by decide +kernel
  have accepted : (((new .default eitherOrder).addAll [mapEntry "first" 0]).add (mapEntry "second" 1)).1 = .ok () := by
    decide +kernel
  have valued : ∀ e ∈ [mapEntry "first" 0, mapEntry "second" 1], EntryValued e := by
    intro e inside
    simp only [List.mem_cons, List.not_mem_nil, or_false] at inside
    rcases inside with rfl | rfl <;> simp [EntryValued, mapEntry, Node.Valued, Arg.ValuedAll, Arg.Valued]
  have verified := builtCodeVerifies .default rfl eitherOrder _ valued
  rcases answer : ((new .default eitherOrder).addAll [mapEntry "first" 0, mapEntry "second" 1]).build with ⟨err | ⟨p, w⟩, s⟩
  · rw [answer] at succeeds
    cases succeeds
  simp only [answer] at verified
  obtain ⟨_, _, _, entries⟩ := literalsReadFirstAlike .default eitherOrder valued answer (v := .map 1) rfl
  obtain ⟨k, point, found, there, runs⟩ := entries [mapEntry "first" 0] (mapEntry "second" 1) [] .unknown rfl rfl rfl accepted
  have there : p.entry? "second" = some point := there
  rw [found] at kept
  have value : k.value = .map 0 := Option.some.inj kept
  have none : point.params = [] := by
    have member : ("second", []) ∈ ((new .default eitherOrder).addAll
        [mapEntry "first" 0, mapEntry "second" 1]).signatures.map fun sig => (sig.name, sig.params) := by
      rw [signatures]
      simp
    obtain ⟨sig, inside, is⟩ := List.mem_map.1 member
    obtain ⟨name, params⟩ := Prod.mk.inj is
    obtain ⟨e, entry, _, _, same, _⟩ := verified.2.2.1 sig inside
    rw [name, there] at entry
    cases entry
    exact same.trans params
  obtain ⟨n, runs⟩ := runs [] [] w rfl (by rw [none]; rfl) (by rw [none]; rfl)
  rw [value] at runs
  exact ⟨p, w, s, rfl, n, runs⟩

end Compiler

end QueryMachine
