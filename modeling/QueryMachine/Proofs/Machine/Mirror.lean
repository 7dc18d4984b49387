import QueryMachine.Proofs.Code.Relocation
import QueryMachine.Proofs.Machine.Dispatch

/-! Libraries that differ in one class. Where there is no object of that class, confined code runs the same with either,
as long as it runs at all: what one does with some fuel, the other does with as much or more. -/
namespace QueryMachine

def Heap.Foreign (host : String) (h : Heap) : Prop := ∀ a, (h.object a).cls ≠ host

structure World.Foreign (host : String) (w : World) : Prop where
  heap : w.heap.Foreign host
  linker : ∀ e ∈ w.linker.adapters, e.2 ≠ .struct host
  sites : ∀ e ∈ w.sites, e.2.2 ≠ .struct host

structure Library.Beside (host : String) (lib lib' : Library) : Prop where
  others : ∀ cls, cls ≠ host → lib.class? cls = lib'.class? cls
  here : (lib.class? host).isSome = (lib'.class? host).isSome

def Library.Confined (host : String) (lib : Library) : Prop :=
  ∀ c ∈ lib.classes, c.name ≠ host → ∀ m ∈ c.methods, ∀ o ∈ m.ops, o.Confined host True

namespace Machine

variable {host : String} {lib lib' : Library} {α β : Type}

def Mirrors (host : String) (r r' : Run α) : Prop :=
  ∀ w, w.Foreign host → (r w).1 ≠ .error .never → r' w = r w ∧ (r w).2.Foreign host

section Rules

variable {r r' : Run α} {f f' : α → Run β}

theorem mirrorsSame (kept : ∀ w, w.Foreign host → (r w).2.Foreign host) : Mirrors host r r :=
  fun w foreign _ => ⟨rfl, kept w foreign⟩

theorem mirrorsPure (x : α) : Mirrors host (pure x : Run α) (pure x) := mirrorsSame fun _ foreign => foreign

theorem mirrorsFault (f : Fault) : Mirrors host (Run.fault f : Run α) (Run.fault f) := mirrorsSame fun _ foreign => foreign

theorem mirrorsNever : Mirrors host (Run.never : Run α) r := fun _ _ ends => absurd rfl ends

theorem mirrorsLift (e : Except Fault α) : Mirrors host (Run.lift e) (Run.lift e) := by
  cases e with
  | ok x => exact mirrorsPure x
  | error f => exact mirrorsFault f

theorem mirrorsOrFault (f : Fault) (o : Option α) : Mirrors host (Run.orFault f o) (Run.orFault f o) := by
  cases o with
  | some x => exact mirrorsPure x
  | none => exact mirrorsFault f

theorem Mirrors.followed {whole whole' : Run β} (g g' : Except Stop α → Run β) (first : Mirrors host r r')
    (never : ∀ w, (g (.error .never) w).1 = .error .never)
    (rest : ∀ w, (r w).1 ≠ .error .never → Mirrors host (g (r w).1) (g' (r w).1))
    (is : ∀ w, whole w = g (r w).1 (r w).2) (is' : ∀ w, whole' w = g' (r' w).1 (r' w).2) : Mirrors host whole whole' := by
  intro w foreign ends
  rw [is] at ends ⊢
  have first' : (r w).1 ≠ .error .never := by
    intro stops
    rw [stops] at ends
    exact ends (never _)
  obtain ⟨same, foreign⟩ := first w foreign first'
  rw [is', same]
  exact rest w first' _ foreign ends

theorem Mirrors.bind (first : Mirrors host r r') (rest : ∀ x, Mirrors host (f x) (f' x)) :
    Mirrors host (r >>= f) (r' >>= f') := by
  have taken (r : Run α) (f : α → Run β) (w : World) : (r >>= f) w =
      (match (r w).1 with | .ok x => f x | .error e => throw e : Run β) (r w).2 := by
    rcases answer : r w with ⟨e | x, w'⟩
    · exact Run.bindError answer
    · exact Run.bindOk answer
  refine first.followed (fun | .ok x => f x | .error e => throw e) (fun | .ok x => f' x | .error e => throw e)
    (fun _ => rfl) ?_ (taken r f) (taken r' f')
  intro w _
  cases (r w).1 with
  | error e => exact mirrorsSame fun _ foreign => foreign
  | ok x => exact rest x

theorem mirrorsAfter {P : α → Prop} (first : ∀ w, w.Foreign host →
      r' w = r w ∧ (r w).2.Foreign host ∧ ∀ x, (r w).1 = .ok x → P x)
    (rest : ∀ x, P x → Mirrors host (f x) (f' x)) : Mirrors host (r >>= f) (r' >>= f') := by
  intro w foreign ends
  obtain ⟨same, after, answers⟩ := first w foreign
  rcases answer : r w with ⟨e | x, w'⟩
  · rw [Run.bindError answer, Run.bindError (same.trans answer)]
    rw [answer] at after
    exact ⟨rfl, after⟩
  · rw [Run.bindOk answer] at ends ⊢
    rw [Run.bindOk (same.trans answer)]
    rw [answer] at after answers
    exact rest x (answers x rfl) w' after ends

theorem mirrorsHeap {f f' : Heap → Run β} (rest : ∀ h, h.Foreign host → Mirrors host (f h) (f' h)) :
    Mirrors host (Run.heap >>= f) (Run.heap >>= f') :=
  fun w foreign ends => rest w.heap foreign.heap w foreign ends

theorem mirrorsSetHeap {h : Heap} (foreign : h.Foreign host) : Mirrors host (Run.setHeap h) (Run.setHeap h) :=
  mirrorsSame fun _ before => ⟨foreign, before.linker, before.sites⟩

theorem mirrorsKeep {h h' : Heap} (foreign : h.Foreign host) (kept : h'.objects = h.objects) :
    Mirrors host (Run.setHeap h') (Run.setHeap h') := by
  refine mirrorsSetHeap fun a => ?_
  unfold Heap.object
  rw [kept]
  exact foreign a

theorem mirrorsAlloc {make : Heap → Value × Heap} (kept : ∀ h, h.Foreign host → (make h).2.Foreign host) :
    Mirrors host (Run.alloc make) (Run.alloc make) :=
  mirrorsSame fun w before => ⟨kept w.heap before.heap, before.linker, before.sites⟩

theorem mirrorsLifted {e : Except Fault α} (rest : ∀ x, e = .ok x → Mirrors host (f x) (f' x)) :
    Mirrors host (Run.lift e >>= f) (Run.lift e >>= f') := by
  cases e with
  | ok x => exact rest x rfl
  | error failed => exact mirrorsFault failed

end Rules

/-! ### Dispatch -/

section Dispatch

variable (beside : Library.Beside host lib lib')

theorem objectForeign {h : Heap} (foreign : h.Foreign host) {o : Instance} (other : o.cls ≠ host) (a : Address) :
    (h.setObject a o).Foreign host := by
  intro b same
  unfold Heap.setObject Heap.object at same
  rw [Array.getD_eq_getD_getElem?, Array.getElem?_setIfInBounds] at same
  split at same
  · split at same
    · exact other same
    · exact foreign h.objects.size (by simpa [Heap.object, Array.getD_eq_getD_getElem?] using same)
  · exact foreign b (by simpa [Heap.object, Array.getD_eq_getD_getElem?] using same)

theorem newForeign {h : Heap} (foreign : h.Foreign host) {o : Instance} (other : o.cls ≠ host) :
    (h.newObject o).2.Foreign host := by
  intro b same
  unfold Heap.newObject Heap.object at same
  rw [Array.getD_eq_getD_getElem?, Array.getElem?_push] at same
  split at same
  · exact other same
  · exact foreign b (by simpa [Heap.object, Array.getD_eq_getD_getElem?] using same)

theorem tagForeign {h : Heap} (foreign : h.Foreign host) (v : Value) : h.tag? v ≠ some (.struct host) := by
  intro is
  cases v with
  | object a => exact foreign a (Tag.struct.inj (Option.some.inj is))
  | _ => cases is

theorem classNameIs {cls : String} {c : Class} (found : lib.class? cls = some c) : c.name = cls := by
  simpa using List.find?_some found

include beside

theorem adapterForBeside {tag : Tag} (other : tag ≠ .struct host) : adapterFor lib' tag = adapterFor lib tag := by
  cases tag with
  | struct cls =>
    have same : lib'.contains cls = lib.contains cls := by
      unfold Library.contains
      rw [beside.others cls fun is => other (is ▸ rfl)]
    change (if lib'.contains cls then _ else _) = if lib.contains cls then _ else _
    rw [same]
  | _ => rfl

omit beside in
theorem adapterForForeign {tag : Tag} (other : tag ≠ .struct host) {a : Adapter} (is : adapterFor lib tag = .ok a) :
    a ≠ .struct host := by
  rintro rfl
  unfold adapterFor at is
  split at is <;> try cases is
  split at is <;> cases is
  exact other rfl

theorem linkBeside {tag : Tag} (other : tag ≠ .struct host) {w : World} (foreign : w.Foreign host) :
    link lib' tag w = link lib tag w ∧ (link lib tag w).2.Foreign host ∧
      ∀ a, (link lib tag w).1 = .ok a → a ≠ .struct host := by
  rw [linkIs, linkIs, adapterForBeside beside other]
  cases found : w.linker.adapters.lookup tag with
  | some a =>
    refine ⟨rfl, foreign, ?_⟩
    rintro _ ⟨⟩
    obtain ⟨before, after, is, _⟩ := List.lookup_eq_some_iff.1 found
    exact foreign.linker (tag, a) (by simp [is])
  | none =>
    cases is : adapterFor lib tag with
    | error f => exact ⟨rfl, foreign, nofun⟩
    | ok a =>
      have apart := adapterForForeign other is
      refine ⟨rfl, ⟨foreign.heap, ?_, foreign.sites⟩, ?_⟩
      · rw [List.forall_mem_append, List.forall_mem_singleton]
        exact ⟨foreign.linker, apart⟩
      · rintro _ ⟨⟩
        exact apart

theorem relinkBeside (site : Nat) {tag : Tag} (other : tag ≠ .struct host) {w : World} (foreign : w.Foreign host) :
    adapterAt.relink lib' site tag w = adapterAt.relink lib site tag w ∧ (adapterAt.relink lib site tag w).2.Foreign host ∧
      ∀ a, (adapterAt.relink lib site tag w).1 = .ok a → a ≠ .struct host := by
  obtain ⟨same, after, apart⟩ := linkBeside beside other foreign
  unfold adapterAt.relink
  rcases answer : link lib tag w with ⟨e | a, w'⟩
  · rw [Run.bindError answer, Run.bindError (same.trans answer)]
    rw [answer] at after
    exact ⟨rfl, after, nofun⟩
  · rw [Run.bindOk answer, Run.bindOk (same.trans answer)]
    rw [answer] at after apart
    have apart := apart a rfl
    refine ⟨rfl, ⟨after.heap, after.linker, ?_⟩, ?_⟩
    · exact List.forall_mem_cons.2 ⟨apart, fun e inside => after.sites e (List.mem_filter.1 inside).1⟩
    · rintro _ ⟨⟩
      exact apart

theorem adapterAtBeside (site : Nat) (target : Value) {w : World} (foreign : w.Foreign host) :
    adapterAt lib' site target w = adapterAt lib site target w ∧ (adapterAt lib site target w).2.Foreign host ∧
      ∀ a, (adapterAt lib site target w).1 = .ok a → a ≠ .struct host := by
  rw [adapterAtOpen, adapterAtOpen]
  cases is : w.heap.tag? target with
  | none => cases target.isNull <;> exact ⟨rfl, foreign, fun _ fails => by cases fails⟩
  | some tag =>
    have relinked := relinkBeside beside site (fun same => tagForeign foreign.heap target (is.trans (congrArg some same))) foreign
    cases memory : w.sites.lookup site with
    | none => exact relinked
    | some entry =>
      obtain ⟨known, a⟩ := entry
      dsimp only
      split
      · refine ⟨rfl, foreign, ?_⟩
        rintro _ ⟨⟩
        obtain ⟨before, after, split, _⟩ := List.lookup_eq_some_iff.1 memory
        exact foreign.sites (site, known, a) (by simp [split])
      · exact relinked

theorem mirrorsAdapter {f f' : Adapter → Run β} {site : Nat} {target : Value}
    (rest : ∀ a, a ≠ .struct host → Mirrors host (f a) (f' a)) :
    Mirrors host (adapterAt lib site target >>= f) (adapterAt lib' site target >>= f') :=
  mirrorsAfter (fun _ foreign => adapterAtBeside beside site target foreign) rest

theorem mirrorsClass {cls : String} {f f' : Class → Run β}
    (rest : ∀ c c', c.name = cls → c'.name = cls → (cls ≠ host → c' = c) → Mirrors host (f c) (f' c')) :
    Mirrors host (Run.lift (classNamed lib cls) >>= f) (Run.lift (classNamed lib' cls) >>= f') := by
  by_cases own : cls = host
  · subst own
    have here := beside.here
    unfold classNamed
    cases found : lib.class? cls with
    | none =>
      rw [found] at here
      cases found' : lib'.class? cls with
      | none => exact mirrorsFault _
      | some c =>
        rw [found'] at here
        contradiction
    | some c =>
      rw [found] at here
      obtain ⟨c', found'⟩ := Option.isSome_iff_exists.1 here.symm
      rw [found']
      exact rest c c' (classNameIs found) (classNameIs found') (absurd rfl)
  · unfold classNamed
    rw [← beside.others cls own]
    cases found : lib.class? cls with
    | none => exact mirrorsFault _
    | some c => exact rest c c (classNameIs found) (classNameIs found) fun _ => rfl

variable {call call' : Call}
  (calls : ∀ m, (∀ o ∈ m.ops, o.Confined host True) → ∀ args, Mirrors host (call m args) (call' m args))
  (confined : lib.Confined host)
include calls confined

theorem accessorMirrors {cls : String} (other : cls ≠ host) (name : String) (args : List Value) :
    Mirrors host (accessor lib call cls name args) (accessor lib' call' cls name args) := by
  unfold accessor
  rw [← beside.others cls other]
  cases found : (lib.class? cls).bind (·.method? name) with
  | none => exact mirrorsFault _
  | some m =>
    obtain ⟨c, known, named⟩ := Option.bind_eq_some_iff.1 found
    refine calls m (confined c (Library.classMember known) ?_ m (Class.methodMember named)) _
    rw [classNameIs known]
    exact other

theorem propertyMirrors {a : Adapter} (other : a ≠ .struct host) (target : Value) (name : String) :
    Mirrors host (propertyOf lib call a target name) (propertyOf lib' call' a target name) := by
  unfold propertyOf
  refine mirrorsHeap fun h _ => ?_
  cases a with
  | struct cls => exact accessorMirrors beside calls confined (fun same => other (same ▸ rfl)) "get" [target, .string name]
  | record => cases target <;> exact mirrorsPure _
  | map => cases target <;> exact mirrorsPure _
  | list => exact mirrorsFault _
  | host cls =>
    cases target with
    | host o => exact mirrorsOrFault _ _
    | _ => exact mirrorsFault _
  | scalar cls => exact mirrorsFault _

theorem namedMirrors {a : Adapter} (other : a ≠ .struct host) (target key : Value) (h : Heap) : Mirrors host
    (match key.string? with
    | some name => propertyOf lib call a target name
    | none => Run.fault (.classCast "String" (h.className key)))
    (match key.string? with
    | some name => propertyOf lib' call' a target name
    | none => Run.fault (.classCast "String" (h.className key))) := by
  cases key.string? with
  | some name => exact propertyMirrors beside calls confined other target name
  | none => exact mirrorsFault _

theorem indexMirrors {a : Adapter} (other : a ≠ .struct host) (target key : Value) :
    Mirrors host (indexOf lib call a target key) (indexOf lib' call' a target key) := by
  unfold indexOf
  refine mirrorsHeap fun h _ => ?_
  cases a with
  | record => exact namedMirrors beside calls confined other target key h
  | struct cls => exact namedMirrors beside calls confined other target key h
  | map => cases target <;> exact mirrorsPure _
  | list =>
    dsimp only
    cases key.integer? with
    | none => exact mirrorsFault _
    | some i =>
      cases target with
      | list l => exact mirrorsLifted fun _ _ => mirrorsPure _
      | _ => exact mirrorsFault _
  | host cls => exact mirrorsFault _
  | scalar cls => exact mirrorsFault _

theorem fieldNamesMirror {a : Adapter} (other : a ≠ .struct host) (target : Value) :
    Mirrors host (fieldNamesOf lib call a target) (fieldNamesOf lib' call' a target) := by
  unfold fieldNamesOf
  refine mirrorsHeap fun h _ => ?_
  cases a with
  | struct cls =>
    refine (accessorMirrors beside calls confined (fun same => other (same ▸ rfl)) "field_names" [target]).bind fun v => ?_
    cases v with
    | list l => exact mirrorsHeap fun _ _ => mirrorsPure _
    | _ => exact mirrorsPure _
  | record => cases target <;> exact mirrorsPure _
  | map => cases target <;> exact mirrorsPure _
  | host cls => cases target <;> exact mirrorsPure _
  | list => exact mirrorsPure _
  | scalar cls => exact mirrorsPure _

theorem mergeMirrors {a : Adapter} (other : a ≠ .struct host) (source : Value) (r : Address) :
    Mirrors host (mergeFields lib call a source r) (mergeFields lib' call' a source r) := by
  unfold mergeFields
  refine (fieldNamesMirror beside calls confined other source).bind fun names => ?_
  induction names with
  | nil => exact mirrorsPure ()
  | cons name names ih =>
    refine Mirrors.bind ((propertyMirrors beside calls confined other source name).bind fun v => ?_) fun _ => ih
    split
    · exact mirrorsHeap fun h foreign => mirrorsKeep foreign rfl
    · exact mirrorsPure _

theorem dynamicMirrors (site : Nat) (d : Dynamic) (s : Stack) :
    Mirrors host (dynamic lib call site d s) (dynamic lib' call' site d s) := by
  cases d with
  | getProperty name =>
    refine mirrorsLifted fun (target, s) _ => mirrorsAdapter beside fun a other => ?_
    exact (propertyMirrors beside calls confined other target name).bind fun _ => mirrorsPure _
  | index =>
    refine mirrorsLifted fun (key, s) _ => mirrorsLifted fun (target, s) _ => mirrorsAdapter beside fun a other => ?_
    exact (indexMirrors beside calls confined other target key).bind fun _ => mirrorsPure _
  | iterate =>
    refine mirrorsLifted fun (target, s) _ => mirrorsAdapter beside fun a other => ?_
    refine Mirrors.bind ?_ fun items => (mirrorsAlloc fun _ foreign => foreign).bind fun _ => mirrorsPure _
    exact mirrorsHeap fun h _ => by
      cases a with
      | list => cases target <;> exact mirrorsPure _
      | _ => exact mirrorsFault _
  | mergeFields =>
    refine mirrorsLifted fun (source, s) _ => mirrorsLifted fun (writer, s) _ => ?_
    cases writer with
    | record r =>
      dsimp only
      cases source.isNull with
      | true => exact mirrorsPure s
      | false =>
        exact mirrorsAdapter beside fun a other =>
          (mergeMirrors beside calls confined other source r).bind fun _ => mirrorsPure s
    | _ => exact mirrorsHeap fun _ _ => mirrorsFault _
  | fieldNames =>
    refine mirrorsLifted fun (target, s) _ => mirrorsAdapter beside fun a other => ?_
    refine (fieldNamesMirror beside calls confined other target).bind fun _ => ?_
    exact (mirrorsAlloc fun _ foreign => foreign).bind fun _ => mirrorsPure _

end Dispatch

/-! ### Steps -/

theorem awaitMirrors (p : Address) (t : Timeout) : Mirrors host (await p t) (await p t) := by
  refine mirrorsHeap fun h foreign => ?_
  cases h.promise? p with
  | some r => exact mirrorsLift r
  | none =>
    cases t.deadline with
    | none => exact mirrorsNever
    | some d => exact Mirrors.bind (mirrorsKeep foreign rfl) fun _ => mirrorsFault _

theorem nativeMirrors {n : Native} (confined : (Op.native n).Confined host True) (apply apply' : Callback → Value → Run Value)
    (s : Stack) : Mirrors host (native apply n s) (native apply' n s) := by
  cases n with
  | promiseThen => exact confined.elim
  | newList => exact mirrorsHeap fun _ _ => (mirrorsAlloc fun _ foreign => foreign).bind fun _ => mirrorsPure _
  | listAdd =>
    refine mirrorsHeap fun h foreign => mirrorsLifted fun _ _ => mirrorsLifted fun _ _ => mirrorsLifted fun _ _ => ?_
    exact Mirrors.bind (mirrorsKeep foreign rfl) fun _ => mirrorsPure _
  | listSet =>
    refine mirrorsHeap fun h foreign => mirrorsLifted fun _ _ => mirrorsLifted fun _ _ => mirrorsLifted fun _ _ => ?_
    refine mirrorsLifted fun _ _ => mirrorsLifted fun _ _ => ?_
    exact Mirrors.bind (mirrorsKeep foreign rfl) fun _ => mirrorsPure _
  | newMap => exact mirrorsHeap fun _ _ => (mirrorsAlloc fun _ foreign => foreign).bind fun _ => mirrorsPure _
  | mapPut =>
    refine mirrorsHeap fun h foreign => mirrorsLifted fun _ _ => mirrorsLifted fun _ _ => mirrorsLifted fun _ _ => ?_
    refine mirrorsLifted fun _ _ => ?_
    exact Mirrors.bind (mirrorsKeep foreign rfl) fun _ => mirrorsPure _
  | newRecord => exact mirrorsHeap fun _ _ => (mirrorsAlloc fun _ foreign => foreign).bind fun _ => mirrorsPure _
  | recordPut =>
    refine mirrorsHeap fun h foreign => mirrorsLifted fun _ _ => mirrorsLifted fun _ _ => mirrorsLifted fun _ _ => ?_
    refine mirrorsLifted fun _ _ => mirrorsLifted fun _ _ => ?_
    exact Mirrors.bind (mirrorsKeep foreign rfl) fun _ => mirrorsPure _
  | promiseGet =>
    refine mirrorsHeap fun h _ => mirrorsLifted fun _ _ => mirrorsLifted fun _ _ => mirrorsLifted fun _ _ => ?_
    exact mirrorsLifted fun _ _ => (awaitMirrors _ _).bind fun _ => mirrorsPure _
  | _ => exact mirrorsHeap fun _ _ => mirrorsLift _

theorem mirrorsGet {f f' : World → Run β} (rest : ∀ w, w.Foreign host → Mirrors host (f w) (f' w)) :
    Mirrors host ((get : Run World) >>= f) ((get : Run World) >>= f') :=
  fun w foreign ends => rest w foreign w foreign ends

theorem setStaticForeign {w : World} (foreign : w.Foreign host) (cls name : String) (v : Value) :
    (w.setStatic cls name v).2.Foreign host := by
  unfold World.setStatic
  split
  · exact ⟨foreign.heap, foreign.linker, foreign.sites⟩
  · exact foreign

theorem putClass {o o' : Instance} {name : String} {v : Value} (is : o.put? name v = some o') : o'.cls = o.cls := by
  obtain ⟨i, _, rfl⟩ := Option.map_eq_some_iff.1 is
  rfl

section Steps

variable (beside : Library.Beside host lib lib') {call call' : Call}
  (calls : ∀ m, (∀ o ∈ m.ops, o.Confined host True) → ∀ args, Mirrors host (call m args) (call' m args))
  (confined : lib.Confined host)
include beside calls confined

theorem outerMirrors {o : Op} (allowed : o.Confined host True) (apply apply' : Callback → Value → Run Value) (s : Stack) :
    Mirrors host (outer lib call apply o s) (outer lib' call' apply' o s) := by
  unfold outer
  refine mirrorsHeap fun h foreign => ?_
  cases o with
  | invoke m => exact allowed.elim
  | function m => exact allowed.elim
  | new cls =>
    refine mirrorsClass beside fun c c' name _ same => ?_
    rw [same allowed]
    refine (mirrorsAlloc fun h foreign => newForeign foreign ?_).bind fun _ => mirrorsPure _
    exact fun is => allowed (name.symm.trans is)
  | getField f =>
    refine mirrorsLifted fun (target, s) _ => ?_
    cases target with
    | object a => exact (mirrorsOrFault _ _).bind fun _ => mirrorsPure _
    | _ => exact mirrorsFault _
  | putField f =>
    refine mirrorsLifted fun (v, s) _ => mirrorsLifted fun (target, s) _ => ?_
    cases target with
    | object a =>
      dsimp only
      cases put : (h.object a).put? f.name v with
      | none => exact mirrorsFault _
      | some o =>
        have other : o.cls ≠ host := fun is => foreign a ((putClass put).symm.trans is)
        exact (mirrorsSetHeap (objectForeign foreign other a)).bind fun _ => mirrorsPure s
    | _ => exact mirrorsFault _
  | getStatic f =>
    refine mirrorsClass beside fun c c' name name' _ => ?_
    rw [name, name']
    refine mirrorsGet fun w _ => ?_
    exact (mirrorsOrFault _ _).bind fun _ => mirrorsPure _
  | putStatic f =>
    refine mirrorsLifted fun (v, s) _ => mirrorsClass beside fun c c' name name' _ => ?_
    rw [name, name']
    refine mirrorsGet fun w foreign => ?_
    have kept := setStaticForeign foreign f.cls f.name v
    rcases is : w.setStatic f.cls f.name v with ⟨found, w'⟩
    rw [is] at kept
    cases found with
    | true => exact Mirrors.bind (mirrorsSame fun _ _ => kept) fun _ => mirrorsPure s
    | false => exact mirrorsFault _
  | native n => exact nativeMirrors allowed apply apply' s
  | dynamic site d => exact dynamicMirrors beside calls confined site d s
  | _ => exact mirrorsPure _

theorem stepMirrors {o : Op} (allowed : o.Confined host True) (apply apply' : Callback → Value → Run Value) (a : Activation) :
    Mirrors host (step lib call apply o a) (step lib' call' apply' o a) := by
  unfold step
  refine mirrorsHeap fun h _ => ?_
  cases core h a.method o a.stack a.locals with
  | some r => exact mirrorsLift r
  | none => exact (outerMirrors beside calls confined allowed apply apply' a.stack).bind fun _ => mirrorsPure _

end Steps

/-! ### Runs -/

theorem execTurn {fuel depth : Nat} {a : Activation} {o : Op} (here : a.method.ops[a.pc]? = some o) (w : World) :
    exec lib (fuel + 1) depth a w = restRun (exec lib fuel depth) a (turn lib fuel depth o a w).1 (turn lib fuel depth o a w).2 := by
  simp only [exec, here, turn]
  rcases step lib (enter (exec lib fuel) depth) (continueWith lib (exec lib fuel)) o a w with ⟨(f | _) | n, w'⟩
  · simp only [restRun]
    cases a.method.handlerFor? a.pc f <;> rfl
  · rfl
  · cases n <;> rfl

theorem enterMirrors {run run' : Nat → Activation → Run Value} {depth : Nat}
    (runs : ∀ a : Activation, (∀ o ∈ a.method.ops, o.Confined host True) → Mirrors host (run (depth + 1) a) (run' (depth + 1) a))
    (m : Method) (allowed : ∀ o ∈ m.ops, o.Confined host True) (args : List Value) :
    Mirrors host (enter run depth m args) (enter run' depth m args) := by
  unfold enter
  split
  · exact mirrorsFault _
  · exact runs (.start m args) allowed

section Runs

variable (beside : Library.Beside host lib lib') (confined : lib.Confined host)
include beside confined

theorem execMirrors {fuel fuel' : Nat} (enough : fuel ≤ fuel') (depth : Nat) (a : Activation)
    (allowed : ∀ o ∈ a.method.ops, o.Confined host True) :
    Mirrors host (exec lib fuel depth a) (exec lib' fuel' depth a) := by
  induction fuel generalizing fuel' depth a with
  | zero => exact mirrorsNever
  | succ fuel ih =>
    obtain ⟨fuel', rfl⟩ : ∃ n, fuel' = n + 1 := ⟨fuel' - 1, by omega⟩
    have enough : fuel ≤ fuel' := Nat.le_of_succ_le_succ enough
    cases here : a.method.ops[a.pc]? with
    | none =>
      simp only [exec, here]
      exact mirrorsFault _
    | some o =>
      have turned := stepMirrors beside (enterMirrors (ih enough (depth + 1))) confined (allowed o (Array.mem_of_getElem? here))
        (continueWith lib (exec lib fuel)) (continueWith lib' (exec lib' fuel')) a
      refine turned.followed (restRun (exec lib fuel depth) a) (restRun (exec lib' fuel' depth) a) (fun _ => rfl) ?_
        (execTurn here) (execTurn here)
      intro w ends
      generalize (step lib (enter (exec lib fuel) depth) (continueWith lib (exec lib fuel)) o a w).1 = x at ends ⊢
      rcases x with (f | _) | n
      · simp only [restRun]
        cases a.method.handlerFor? a.pc f with
        | some pc => exact ih enough depth _ allowed
        | none => exact mirrorsFault f
      · exact absurd rfl ends
      · cases n with
        | next | jump => exact ih enough depth _ allowed
        | done v => exact mirrorsPure v

end Runs

end Machine

end QueryMachine
