import QueryMachine.Proofs.Machine.Memory
import QueryMachine.Proofs.Text.Case
import QueryMachine.Proofs.Unit.Getter
import QueryMachine.Proofs.Unit.Reader
import QueryMachine.Proofs.Unit.Twin

/-! Properties of structs. Code that knows the type of an object and code that does not read the same, and refuse the
same names. -/
namespace QueryMachine

open Build (Ends)

namespace Struct

variable {cls name : String} {fields : List (String × Ty)} {s s' : Session} {l : Loaded}

/-! ### Names -/

theorem unrepeated {names seen : List String} : repeated? seen names = none ↔
    (names.map Text.Uppercase.text).Nodup ∧ ∀ name ∈ names, Text.Uppercase.text name ∉ seen := by
  induction names generalizing seen with
  | nil => simp [repeated?]
  | cons name names ih =>
    simp only [repeated?, List.contains_eq_mem, decide_eq_true_eq]
    split
    · next there => simp [there]
    · next absent =>
      rw [ih, List.map_cons, List.nodup_cons, List.forall_mem_cons]
      simp only [List.mem_cons, not_or, List.mem_map, not_exists, not_and]
      constructor
      · rintro ⟨distinct, apart⟩
        exact ⟨⟨fun other inside => (apart other inside).1, distinct⟩, absent, fun other inside => (apart other inside).2⟩
      · rintro ⟨⟨new, distinct⟩, _, apart⟩
        exact ⟨distinct, fun other inside => ⟨new other inside, apart other inside⟩⟩

theorem namesDistinct (upper : (fields.map fun f => Text.Uppercase.text f.1).Nodup) : (fields.map (·.1)).Nodup := by
  refine .of_map Text.Uppercase.text ?_
  rwa [List.map_map]

theorem upperNamed (ascii : ∀ f ∈ fields, Text.Ascii f.1) (ascii' : Text.Ascii name) :
    upper? fields name = Ty.fieldNamed? fields name := by
  unfold upper? Ty.fieldNamed?
  induction fields with
  | nil => rfl
  | cons f fields ih =>
    rw [List.forall_mem_cons] at ascii
    have same : (Text.Uppercase.text f.1 == Text.Uppercase.text name) = (f.1.toLower == name.toLower) := by
      rw [Bool.eq_iff_iff, beq_iff_eq, beq_iff_eq]
      exact Text.upperIff ascii.1 ascii'
    rw [List.find?_cons, List.find?_cons, same, ih ascii.2]

/-! ### Loading -/

theorem typeBrings (fresh : s.structs.lookup fields = none) : Ends (type fields) s (fun _ _ => True) fun t s' =>
    ∃ cls, t = .struct false cls fields ∧ (fields.map fun f => Text.Uppercase.text f.1).Nodup ∧
      (unit cls fields t s.frames).1 ∈ s'.units ∧ s'.frames = (unit cls fields t s.frames).2 := by
  unfold type Build.checkOpen
  rw [Build.endsBind, Build.endsBind, Build.endsGet]
  cases open_ : s.built with
  | true => trivial
  | false =>
    rw [if_neg Bool.false_ne_true, Build.endsPure]
    cases distinct : repeated? [] (fields.map (·.1)) with
    | some name => trivial
    | none =>
      simp only [Build.endsBind, Build.endsGet, fresh, Build.endsSet]
      refine Build.endsAddUnit open_ (fun _ _ _ => trivial) ?_
      intro _ _
      have upper := (unrepeated.1 distinct).1
      rw [List.map_map] at upper
      exact ⟨_, rfl, upper, List.mem_append_right _ List.mem_cons_self, rfl⟩

theorem typeCreates (fresh : s.structs.lookup fields = none) : Ends (type fields) s (fun _ _ => True) fun t s' =>
    ∃ cls, t = .struct false cls fields ∧ (fields.map (·.1)).Nodup ∧
      (unit cls fields t s.frames).1 ∈ s'.units ∧ s'.frames = (unit cls fields t s.frames).2 :=
  (typeBrings fresh).mono (fun _ _ ⟨cls, is, upper, rest⟩ => ⟨cls, is, namesDistinct upper, rest⟩) fun _ _ h => h

structure Getter (lib : Library) (cls : String) (fields : List (String × Ty)) (m : Method) : Prop where
  found : lib.method? cls "get" = some m
  unguarded : m.handlers = []
  lays : ∃ held, m.Lays (dispatchCode fields 1 held (getCode cls 0)) ∧ 1 < held ∧ held < m.maxLocals

theorem getterRendered {type : Ty} {made fs : Frames} {h : Heap} {verifying : Bool} {this key : Local} {method : Method}
    (reference : type.nonNull.width ≤ 1) (grows : (unit cls fields type made).2.Grows fs)
    (own : (getDraft cls type (framesNew cls fields type made)).1.receiver.toList ++
      (getDraft cls type (framesNew cls fields type made)).1.locals = [this, key])
    (is : ((getDraft cls type (framesNew cls fields type made)).1.withBody (getterBody cls fields this key)).render fs h
      verifying = .ok method) : method.handlers = [] ∧
        ∃ held, method.Lays (dispatchCode fields 1 held (getCode cls 0)) ∧ 1 < held ∧ held < method.maxLocals := by
  have created := getCreated cls fields type made
  have later : (framesGet cls fields type made).Grows fs :=
    ((putCreated cls fields type made).grows.trans (namesCreated cls fields type made).grows).trans grows
  have narrow := created.narrow (fun t is => Option.some.inj is ▸ reference) fun p inside => by
    rw [List.mem_singleton.1 inside]
    exact Nat.le_refl 1
  obtain ⟨room, slots⟩ := created.slots later narrow
  rw [own] at room slots
  obtain ⟨lays, handlers, _, top⟩ := MethodDraft.renderLaid _ is rfl rfl
    (fun e wrote => (outGetter (slots 0 this rfl) (slots 1 key rfl) wrote).mono
      (fun _ _ ⟨k, wrote⟩ => ⟨_, k, wrote, Nat.le_refl _⟩) fun _ h => h) (getDistinct cls fields 0 1 _)
  exact ⟨handlers, _, lays, room, top⟩

theorem unitMethodFound {c : Class} {type : Ty} {made : Frames}
    (renders : (unit cls fields type made).1.render s.frames s.heap s.config.verify = .ok c) {m : MethodDraft}
    (inside : m ∈ (unit cls fields type made).1.methods) : ∃ method, c.method? m.ref.name = some method ∧
      m.render s.frames s.heap s.config.verify = .ok method := by
  obtain ⟨_, _, _, _, _, _, _, drafts⟩ := unitMethods cls fields type made
  obtain ⟨methods, same⟩ := UnitDraft.renderIs renders
  have distinct : ((unit cls fields type made).1.methods.map (·.ref.name)).Nodup := by
    rw [drafts]
    show ["new", "get", "put", "field_names"].Nodup
    decide
  exact Load.methodFound ⟨by rw [same], by rw [same], methods⟩ distinct inside

theorem unitLoaded {classes : List Class} {type : Ty} {made : Frames} (is : Load.From s classes l)
    (inside : (unit cls fields type made).1 ∈ s.units) :
    ∃ c, (unit cls fields type made).1.render s.frames s.heap s.config.verify = .ok c ∧ l.library.class? cls = some c := by
  have filled : (unit cls fields type made).1.isEmpty = false := (unitKept cls type made).2.1
  exact is.classFound (List.mem_filter.2 ⟨List.mem_append_left _ inside, by rw [filled]; rfl⟩)

theorem getterLoaded {classes : List Class} {type : Ty} {made : Frames} (reference : type.nonNull.width ≤ 1)
    (is : Load.From s classes l) (inside : (unit cls fields type made).1 ∈ s.units)
    (grows : (unit cls fields type made).2.Grows s.frames) : ∃ m, Getter l.library cls fields m := by
  obtain ⟨c, renders, found⟩ := unitLoaded is inside
  obtain ⟨this, key, _, _, _, own, _, drafts⟩ := unitMethods cls fields type made
  have get : (getDraft cls type (framesNew cls fields type made)).1.withBody (getterBody cls fields this key) ∈
      (unit cls fields type made).1.methods := by
    rw [drafts]
    exact List.mem_cons_of_mem _ List.mem_cons_self
  obtain ⟨m, here, rendered⟩ := unitMethodFound renders get
  obtain ⟨unguarded, lays⟩ := getterRendered reference grows own rendered
  refine ⟨m, ?_, unguarded, lays⟩
  unfold Library.method?
  rw [found]
  exact here

end Struct

/-! ### Running -/

namespace Machine

/-- What a method comes to on arguments, once there is fuel enough. -/
def Gives (lib : Library) (m : Method) (args : List Value) (w : World) (q : Except Fault Value) (w' : World) : Prop :=
  ∃ k, ∀ fuel, invoke lib (fuel + k) m args w = (q.mapError .fault, w')

variable {lib : Library} {m : Method} {cls name : String} {fields : List (String × Ty)} {w w' : World} {a : Address}

def localsOf (m : Method) (args : List Value) : List Value := args ++ List.replicate (m.maxLocals - args.length) .null

theorem localsRoom (m : Method) (args : List Value) : m.maxLocals ≤ (localsOf m args).length := by
  unfold localsOf
  rw [List.length_append, List.length_replicate]
  omega

theorem getterRuns (getter : Struct.Getter lib cls fields m) (depth : Nat) (w : World) (a : Address) (name : String) :
    match Struct.upper? fields name with
    | some f => ∀ v b, (w.heap.object a).get? f.1 = some v → v.Fills f.2.rep → v.Boxes w.heap f.2 b →
      Thread.Finishes ⟨lib, m, depth, getter.unguarded⟩ ⟨0, [], localsOf m [.object a, .string name], w⟩ (.ok b) w
    | none => Thread.Finishes ⟨lib, m, depth, getter.unguarded⟩ ⟨0, [], localsOf m [.object a, .string name], w⟩
      (.error (.propertyNotFound name)) w := by
  obtain ⟨held, lays, after, low⟩ := getter.lays
  exact Struct.getterFinishes (θ := ⟨lib, m, depth, getter.unguarded⟩) lays (Nat.lt_of_lt_of_le low (localsRoom m _))
    (Nat.ne_of_lt after) (Nat.ne_of_lt (Nat.lt_trans Nat.zero_lt_one after)) rfl rfl

theorem siteReads (getter : Struct.Getter lib cls fields m) (coherent : Coherent lib w) (of : (w.heap.object a).cls = cls)
    (site : Nat) (name : String) : ∃ w', w.Beside w' ∧ ∀ call : Call, dynamic lib call site (.getProperty name) [.object a] w =
      (call m [.object a, .string name] >>= fun v => return push v [] : Run Stack) w' := by
  have tag : w.heap.tag? (.object a) = some (.struct cls) := by rw [← of]; rfl
  have learns := adapterAtLearns coherent site tag
  have known : lib.contains cls = true := by
    have found := getter.found
    unfold Library.method? at found
    cases is : lib.class? cls with
    | none => simp [is] at found
    | some c => simp [Library.contains, is]
  have adapts : adapterAt lib site (.object a) w = (.ok (.struct cls), (adapterAt lib site (.object a) w).2) := by
    refine Prod.ext (learns.made.trans ?_) rfl
    simp [made, adapterFor, known]
  refine ⟨_, learns.beside, fun call => ?_⟩
  have unfolded : dynamic lib call site (.getProperty name) [.object a] w =
      (adapterAt lib site (.object a) >>= fun adapter => propertyOf lib call adapter (.object a) name >>=
        fun v => return push v [] : Run Stack) w := rfl
  rw [unfolded, Run.bindOk adapts]
  have accessed : propertyOf lib call (.struct cls) (.object a) name = call m [.object a, .string name] := by
    have found : (lib.class? cls).bind (·.method? "get") = some m := getter.found
    funext v
    change accessor lib call cls "get" [.object a, .string name] v = _
    unfold accessor
    rw [found]
    rfl
  rw [accessed]

theorem siteGives {reader : Method} {held site : Nat} {q : Except Fault Value} (getter : Struct.Getter lib cls fields m)
    (coherent : Coherent lib w) (of : (w.heap.object a).cls = cls) (lays : reader.Lays (Asm.readsAt held site name))
    (unguarded : reader.handlers = []) (low : held < reader.maxLocals) (narrow : ∀ b, q = .ok b → b.width = 1)
    (runs : ∀ w', w.Beside w' → Thread.Finishes ⟨lib, m, 2, getter.unguarded⟩
      ⟨0, [], localsOf m [.object a, .string name], w'⟩ q w') :
    ∃ w', w.Beside w' ∧ Gives lib reader [.object a] w q w' := by
  obtain ⟨w', beside, reads⟩ := siteReads getter coherent of site name
  refine ⟨w', beside, ?_⟩
  obtain ⟨k, ends⟩ := runs w' beside
  let θ : Thread := ⟨lib, reader, 1, unguarded⟩
  let ls := localsOf reader [.object a]
  let ls' := ls.set held (.object a)
  have room : held < ls.length := Nat.lt_of_lt_of_le low (localsRoom reader _)
  obtain ⟨load, dup, test, _, _, present, store, again, read, leave, _, _, done, return_, _⟩ := lays.spans
  have stored : core w.heap reader (.store held) [.object a] ls = some (.ok (.next [] ls')) := rfl
  have loaded : core w.heap reader (.load held) [] ls' = some (.ok (.next [.object a] ls')) := by
    simp [core, ls', room]
  have comes : θ.Course ⟨0, [], ls, w⟩ (.ok ⟨7, [.object a], ls', w⟩) := by
    refine (Thread.next load rfl).trans ((Thread.next dup rfl).trans ((Thread.jumps test rfl).trans ?_))
    rw [show θ.method.position 2 = _ from present]
    exact (Thread.next store stored).trans (Thread.next again loaded)
  have answered : ∀ fuel, enter (exec lib (fuel + k)) 1 m [.object a, .string name] w' = (q.mapError .fault, w') := ends
  have turns : ∀ fuel, θ.turn fuel (.dynamic site (.getProperty name)) ⟨7, [.object a], ls', w⟩ =
      (dynamic lib (enter (exec lib fuel) 1) site (.getProperty name) [.object a] >>= fun s => return Next.next s ls' :
        Run Next) w := fun fuel => Thread.turnOuter (a := ⟨7, [.object a], ls', w⟩) rfl fuel
  refine comes.finishes ?_
  cases q with
  | ok b =>
    have goes : ∃ k, ∀ fuel, θ.turn (fuel + k) (.dynamic site (.getProperty name)) ⟨7, [.object a], ls', w⟩ =
        (.ok (.next (push b []) ls'), w') := by
      refine ⟨k, fun fuel => ?_⟩
      have here := (reads (enter (exec lib (fuel + k)) 1)).trans (Run.bindOk (answered fuel))
      rw [turns, Run.bindOk here]
      rfl
    refine Thread.finishesNext (a := ⟨7, [.object a], ls', w⟩) read goes ?_
    have one : push b [] = [b] := by
      unfold push
      rw [narrow b rfl]
      rfl
    rw [one]
    refine (Thread.jumps leave rfl).finishes ?_
    rw [show θ.method.position 1 = _ from done]
    exact Thread.finishesReturn return_
  | error f =>
    refine Thread.finishesFault (a := ⟨7, [.object a], ls', w⟩) read ⟨k, fun fuel => ?_⟩
    have here := (reads (enter (exec lib (fuel + k)) 1)).trans (Run.bindError (answered fuel))
    rw [turns, Run.bindError here]

theorem fieldGives {reader : Method} {f : String × Ty} {v b : Value} (lays : reader.Lays (Struct.getCode cls 0 f))
    (unguarded : reader.handlers = []) (is : (w.heap.object a).get? f.1 = some v) (fills : v.Fills f.2.rep)
    (boxed : v.Boxes w.heap f.2 b) : Gives lib reader [.object a] w (.ok b) w := by
  show Thread.Finishes ⟨lib, reader, 1, unguarded⟩ ⟨0, [], localsOf reader [.object a], w⟩ (.ok b) w
  exact Struct.getFinishes lays.spans rfl is fills boxed

theorem givesOne {args : List Value} {q q' : Except Fault Value} {w' w'' : World} (one : Gives lib m args w q w')
    (other : Gives lib m args w q' w'') : q = q' := by
  obtain ⟨k, first⟩ := one
  obtain ⟨n, second⟩ := other
  have both := (first n).symm.trans (Nat.add_comm n k ▸ second k)
  cases q with
  | ok v =>
    cases q' with
    | ok v' => cases both; rfl
    | error f => cases both
  | error f =>
    cases q' with
    | ok v' => cases both
    | error f' => cases both; rfl

end Machine

/-! ### Agreement -/

namespace MethodDraft

/-- The method is rendered as it was made, and however the frames grow as long as there are slots for its code. -/
def Renders (m : MethodDraft) (made : Frames) : Prop :=
  m.Fits made ∧ ∀ fs, made.Grows fs → m.Fits fs → ∀ h verifying, ∃ method, m.render fs h verifying = .ok method

/-- However the method is rendered, on an object it comes to `q`, and leaves the world as it is but for what call sites
and the linker remember. -/
def Yields (m : MethodDraft) (made : Frames) (lib : Library) (a : Address) (w : World) (q : Except Fault Value) : Prop :=
  ∀ fs, made.Grows fs → ∀ h verifying method, m.render fs h verifying = .ok method →
    ∃ w', w.Beside w' ∧ Machine.Gives lib method [.object a] w q w'

end MethodDraft

namespace Struct

open Machine

variable {cls name : String} {fields : List (String × Ty)} {l : Loaded} {w : World} {a : Address} {getter : Method}

theorem dynamicYields {q : Except Fault Value} (getter_ : Getter l.library cls fields getter) (coherent : Coherent l.library w)
    (of : (w.heap.object a).cls = cls) (narrow : ∀ b, q = .ok b → b.width = 1)
    (runs : ∀ w', w.Beside w' → ∀ depth, Thread.Finishes ⟨l.library, getter, depth, getter_.unguarded⟩
      ⟨0, [], localsOf getter [.object a, .string name], w'⟩ q w') (host method : String) (s : Session) :
    ∃ d s', Build.reading host method .any name s = (.ok d, s') ∧ d.Renders s'.frames ∧ d.Yields s'.frames l.library a w q := by
  obtain ⟨d, s', is, fits, written⟩ := Build.readingDynamic host method name s
  refine ⟨d, s', is, ⟨fits, fun fs grows room h verifying => (written fs grows h verifying).1 room⟩, ?_⟩
  intro fs grows h verifying rendered renders
  obtain ⟨held, site, lays, unguarded, low⟩ := (written fs grows h verifying).2 rendered renders
  exact siteGives getter_ coherent of lays unguarded low narrow fun w' beside => runs w' beside 2

/-- On ASCII names an object of a struct type is read alike by code that knows its type, by the getter of its class and
by code that does not know its type. -/
theorem readsAgree {s s₁ s₂ s₃ : Session} (fresh : s.structs.lookup fields = none)
    (typed : type fields s = (.ok (.struct false cls fields), s₁)) (units : s₁.units ⊆ s₂.units)
    (frames : s₁.frames.Grows s₂.frames) (built : Load.build s₂ = (.ok l, s₃)) (ascii : ∀ f ∈ fields, Text.Ascii f.1)
    (ascii' : Text.Ascii name) (coherent : Coherent l.library w) (instance_ : (w.heap.object a).Of cls fields) :
    ∃ getter, l.library.method? cls "get" = some getter ∧ ∀ (host method : String) (s₀ : Session),
      ((∃ d s', Build.reading host method (.struct false cls fields) name s₀ = (.ok d, s')) ↔
        ∃ b, Gives l.library getter [.object a, .string name] w (.ok b) w) ∧
      (∀ d s', Build.reading host method (.struct false cls fields) name s₀ = (.ok d, s') →
        ∃ f v b d' s'', Ty.fieldNamed? fields name = some f ∧ (w.heap.object a).get? f.1 = some v ∧ v.Boxes w.heap f.2 b ∧
          Gives l.library getter [.object a, .string name] w (.ok b) w ∧
          (f.2 ≠ .void → d.Renders s'.frames) ∧ d.Yields s'.frames l.library a w (.ok b) ∧
          Build.reading host method .any name s₀ = (.ok d', s'') ∧ d'.Renders s''.frames ∧
          d'.Yields s''.frames l.library a w (.ok b)) ∧
      ∀ err s', Build.reading host method (.struct false cls fields) name s₀ = (.error err, s') →
        err = .of (.propertyNotFound cls name) ∧
          Gives l.library getter [.object a, .string name] w (.error (.propertyNotFound name)) w ∧
          ∃ d' s'', Build.reading host method .any name s₀ = (.ok d', s'') ∧ d'.Renders s''.frames ∧
            d'.Yields s''.frames l.library a w (.error (.propertyNotFound name)) := by
  obtain ⟨_, same, distinct, unit_, framed⟩ := (typeCreates fresh).ok typed
  cases same
  obtain ⟨classes, from_⟩ := (Load.buildFrom s₂).ok built
  have reference : (Ty.struct false cls fields).nonNull.width ≤ 1 := Nat.le_refl 1
  obtain ⟨getter, getter_⟩ := getterLoaded reference from_ (units unit_) (framed ▸ frames)
  refine ⟨getter, getter_.found, fun host method s₀ => ?_⟩
  have runs := fun w depth => getterRuns getter_ depth w a name
  rw [upperNamed ascii ascii'] at runs
  rcases named : Ty.fieldNamed? fields name with _ | f
  case some =>
    simp only [named] at runs
    have inside : f ∈ fields := List.mem_of_find?_eq_some named
    obtain ⟨v, is, fills⟩ := instance_.reads distinct inside
    obtain ⟨b, boxed⟩ := fills.boxes w.heap
    have gives : Gives l.library getter [.object a, .string name] w (.ok b) w := runs w 1 v b is fills boxed
    obtain ⟨d, s', static, fits, written⟩ := Build.readingStatic cls named host method s₀
    have dynamic := dynamicYields getter_ coherent instance_.cls (q := .ok b) (fun _ same => by
      cases same
      exact boxed.narrow fills) (fun w' beside depth => by
        rw [beside.heap] at is boxed
        exact runs w' depth v b is fills boxed) host method s₀
    obtain ⟨d', s'', dynamic, renders, yields⟩ := dynamic
    refine ⟨⟨fun _ => ⟨b, gives⟩, fun _ => ⟨d, s', static⟩⟩, ?_, ?_⟩
    · intro d₁ s₁ answer
      cases static.symm.trans answer
      refine ⟨f, v, b, d', s'', rfl, is, boxed, gives, ?_, ?_, dynamic, renders, yields⟩
      · exact fun sized => ⟨fits, fun fs grows room h verifying => (written fs grows h verifying).1 sized room⟩
      · intro fs grows h verifying rendered answer
        obtain ⟨lays, unguarded⟩ := (written fs grows h verifying).2 rendered answer
        exact ⟨w, ⟨rfl, rfl⟩, fieldGives lays unguarded is fills boxed⟩
    · intro err s₁ answer
      cases static.symm.trans answer
  case none =>
    simp only [named] at runs
    obtain ⟨s', refused⟩ := Build.readingRefused cls named host method s₀
    have gives : Gives l.library getter [.object a, .string name] w (.error (.propertyNotFound name)) w := runs w 1
    have dynamic := dynamicYields getter_ coherent instance_.cls (q := .error (.propertyNotFound name)) nofun
      (fun w' _ depth => runs w' depth) host method s₀
    refine ⟨⟨?_, ?_⟩, ?_, ?_⟩
    · rintro ⟨d, s₁, answer⟩
      cases refused.symm.trans answer
    · rintro ⟨b, answers⟩
      cases givesOne answers gives
    · intro d s₁ answer
      cases refused.symm.trans answer
    · intro err s₁ answer
      cases refused.symm.trans answer
      exact ⟨rfl, gives, dynamic⟩

def points : List (String × Ty) := [("x", .int32), ("Y", .int64)]

def pointHeap : Heap := (Heap.empty.newObject ⟨"struct_0", ["x", "Y"], [.int 3, .long 4]⟩).2

theorem pointReads : ∃ s l s' getter, type points (.new .default .empty) = (.ok (.struct false "struct_0" points), s) ∧
    Load.build s = (.ok l, s') ∧ l.library.method? "struct_0" "get" = some getter ∧
      Gives l.library getter [.object 0, .string "y"] (.empty pointHeap) (.ok (.boxed (.long 4))) (.empty pointHeap) ∧
      Gives l.library getter [.object 0, .string "z"] (.empty pointHeap) (.error (.propertyNotFound "z")) (.empty pointHeap) := by
  have typed : type points (.new .default .empty) =
      (.ok (.struct false "struct_0" points), (type points (.new .default .empty)).2) := rfl
  have builds : (Load.build (type points (.new .default .empty)).2).1.isOk = true := by decide +kernel
  rcases built : Load.build (type points (.new .default .empty)).2 with ⟨err | l, s'⟩
  · rw [built] at builds
    contradiction
  have point : ((World.empty pointHeap).heap.object 0).Of "struct_0" points :=
    ⟨rfl, rfl, .cons rfl (.cons rfl .nil)⟩
  have ascii : ∀ f ∈ points, Text.Ascii f.1 := by decide
  have known : Text.Ascii "y" := by decide
  have unknown : Text.Ascii "z" := by decide
  have present : Ty.fieldNamed? points "y" = some ("Y", .int64) := by
    simp only [Ty.fieldNamed?, Text.lowerSame]
    rfl
  have missing : Ty.fieldNamed? points "z" = none := by
    simp only [Ty.fieldNamed?, Text.lowerSame]
    rfl
  have coherent := Coherent.forgetful l.library (.empty pointHeap)
  obtain ⟨getter, found, answers⟩ :=
    readsAgree rfl typed (List.Subset.refl _) (.refl _) built ascii known coherent point
  obtain ⟨getter', found', refuses⟩ :=
    readsAgree rfl typed (List.Subset.refl _) (.refl _) built ascii unknown coherent point
  cases found.symm.trans found'
  refine ⟨_, l, s', getter, typed, built, found, ?_, ?_⟩
  · obtain ⟨d, after, accepted, _⟩ := Build.readingStatic "struct_0" present "query" "read" (.new .default .empty)
    obtain ⟨f, v, b, _, _, named, is, boxed, gives, _⟩ :=
      (answers "query" "read" (.new .default .empty)).2.1 d after accepted
    cases present.symm.trans named
    cases is
    cases boxed
    exact gives
  · obtain ⟨after, refused⟩ := Build.readingRefused "struct_0" missing "query" "read" (.new .default .empty)
    exact ((refuses "query" "read" (.new .default .empty)).2.2 _ after refused).2.1

end Struct

end QueryMachine
