import Mathlib.Data.List.Dedup
import QueryMachine.Proofs.Machine.Memory
import QueryMachine.Proofs.Machine.Trace

/-! Dynamic calls in any order. Code runs the same whatever call sites and the linker remember, and the linker has made
one adapter for each sort of object that was dispatched on. -/
namespace QueryMachine

namespace Machine

/-! ### What runs dispatch on -/

abbrev Sighting := Method → List Value → World → List Tag

def receiver? : Dynamic → Stack → Option Value
  | .getProperty _, v :: _ | .iterate, v :: _ | .fieldNames, v :: _ => some v
  | .index, _ :: v :: _ => some v
  | .mergeFields, v :: .record _ :: _ => some v
  | _, _ => none

def copyField (lib : Library) (call : Call) (a : Adapter) (source : Value) (r : Address) (name : String) : Run Unit := do
  let v ← propertyOf lib call a source name
  if !v.isNull then
    let h ← Run.heap
    Run.setHeap (h.setRecord r ((h.record r).put name v))

section Seen

variable (lib : Library) (call : Call) (seen : Sighting)

def accessorSees (cls name : String) (args : List Value) (w : World) : List Tag :=
  match (lib.class? cls).bind (·.method? name) with
  | some m => seen m (slotsOf args) w
  | none => []

def propertySees (a : Adapter) (target : Value) (name : String) (w : World) : List Tag :=
  match a with
  | .struct cls => accessorSees lib seen cls "get" [target, .string name] w
  | _ => []

def indexSees (a : Adapter) (target key : Value) (w : World) : List Tag :=
  match key.string? with
  | some name => propertySees lib seen a target name w
  | none => []

def namesSee (a : Adapter) (target : Value) (w : World) : List Tag :=
  match a with
  | .struct cls => accessorSees lib seen cls "field_names" [target] w
  | _ => []

def copySees (a : Adapter) (source : Value) (r : Address) : List String → World → List Tag
  | [], _ => []
  | name :: rest, w => propertySees lib seen a source name w ++
    onward (fun _ => copySees a source r rest) (copyField lib call a source r name w)

def mergeSees (a : Adapter) (source : Value) (r : Address) (w : World) : List Tag :=
  namesSee lib seen a source w ++ onward (copySees lib call seen a source r) (fieldNamesOf lib call a source w)

def adaptedSees (d : Dynamic) (s : Stack) (target : Value) (a : Adapter) : World → List Tag :=
  match d, s with
  | .getProperty name, _ => propertySees lib seen a target name
  | .index, key :: _ => indexSees lib seen a target key
  | .mergeFields, _ :: .record r :: _ => mergeSees lib call seen a target r
  | .fieldNames, _ => namesSee lib seen a target
  | _, _ => fun _ => []

def dynamicSees (site : Nat) (d : Dynamic) (s : Stack) (w : World) : List Tag :=
  match receiver? d s with
  | none => []
  | some target => (w.heap.tag? target).toList ++
    onward (adaptedSees lib call seen d s target) (adapterAt lib site target w)

def chainSees (resumed : Callback → Value → World → List Tag) (p : Address) (f : Callback) (h : Heap) : World → List Tag :=
  match h.promise? p with
  | some (.ok v) => resumed f v
  | _ => fun _ => []

def opSees (resumed : Callback → Value → World → List Tag) (op : Op) (s : Stack) (w : World) : List Tag :=
  match op, s with
  | .invoke m, s => match methodNamed lib m.cls m.name with
    | .ok callee => seen callee (s.take m.argSlots).reverse w
    | .error _ => []
  | .native .promiseThen, .function cls name :: .promise p :: _ => chainSees resumed p ⟨cls, name⟩ w.heap w
  | .dynamic site d, s => dynamicSees lib call seen site d s w
  | _, _ => []

end Seen

def enterSees (see : Nat → Activation → World → List Tag) (depth : Nat) : Sighting := fun m args w =>
  if maxDepth ≤ depth then [] else see (depth + 1) (.start m args) w

def continueSees (lib : Library) (see : Nat → Activation → World → List Tag) (f : Callback) (v : Value) (w : World) :
    List Tag :=
  match methodNamed lib f.cls f.name with
  | .ok m => enterSees see 0 m (slotsOf [v]) w
  | .error _ => []

def restSees (see : Activation → World → List Tag) (a : Activation) : Except Stop Next → World → List Tag
  | .ok (.next s ls) => see { a with pc := a.pc + 1, stack := s, locals := ls }
  | .ok (.jump pc s ls) => see { a with pc, stack := s, locals := ls }
  | .error (.fault f) => match a.method.handlerFor? a.pc f with
    | some pc => see { a with pc, stack := [.throwable f] }
    | none => fun _ => []
  | _ => fun _ => []

def sees (lib : Library) : Nat → Nat → Activation → World → List Tag
  | 0, _, _, _ => []
  | fuel + 1, depth, a, w => match a.method.ops[a.pc]? with
    | none => []
    | some op =>
      opSees lib (enter (exec lib fuel) depth) (enterSees (sees lib fuel) depth) (continueSees lib (sees lib fuel)) op
        a.stack w ++
      restSees (sees lib fuel depth) a (turn lib fuel depth op a w).1 (turn lib fuel depth op a w).2

/-! ### Accessors and dynamic operations -/

section Accessors

variable {lib : Library} {call : Call} {seen : Sighting} (calls : ∀ m args, Watched lib (call m args) (seen m args))
  (a : Adapter) (target source key : Value) (name : String)
include calls

theorem accessorWatched (cls : String) (args : List Value) :
    Watched lib (accessor lib call cls name args) (accessorSees lib seen cls name args) := by
  unfold accessor accessorSees
  cases (lib.class? cls).bind (·.method? name) with
  | some m => exact calls m (slotsOf args)
  | none => exact silentFault _

theorem propertyWatched : Watched lib (propertyOf lib call a target name) (propertySees lib seen a target name) := by
  unfold propertyOf
  refine watchedHeap fun h => ?_
  cases a with
  | struct cls => exact accessorWatched calls "get" cls [target, .string name]
  | record => cases target <;> exact silentPure _
  | map => cases target <;> exact silentPure _
  | list => exact silentFault _
  | host cls =>
    cases target with
    | host o => exact silentOrFault _ _
    | _ => exact silentFault _
  | scalar cls => exact silentFault _

theorem indexWatched : Watched lib (indexOf lib call a target key) (indexSees lib seen a target key) := by
  have named : ∀ h : Heap, Watched lib (match key.string? with
      | some name => propertyOf lib call a target name
      | none => Run.fault (.classCast "String" (h.className key))) (indexSees lib seen a target key) := by
    intro h
    unfold indexSees
    cases key.string? with
    | some name => exact propertyWatched calls a target name
    | none => exact silentFault _
  have unseen : (∀ cls, a ≠ .struct cls) → ∀ w, [] = indexSees lib seen a target key w := by
    intro other w
    unfold indexSees propertySees
    cases key.string? with
    | none => rfl
    | some name =>
      cases a with
      | struct cls => exact absurd rfl (other cls)
      | _ => rfl
  unfold indexOf
  refine watchedHeap fun h => ?_
  cases a with
  | record => exact named h
  | struct cls => exact named h
  | map =>
    refine Watched.congr ?_ (unseen nofun)
    cases target <;> exact silentPure _
  | list =>
    refine Watched.congr ?_ (unseen nofun)
    dsimp only
    cases key.integer? with
    | none => exact silentFault _
    | some i =>
      cases target with
      | list l => exact (silentLift _).thenSilent fun _ => silentPure _
      | _ => exact silentFault _
  | host cls => exact (silentFault _).congr (unseen nofun)
  | scalar cls => exact (silentFault _).congr (unseen nofun)

theorem namesWatched : Watched lib (fieldNamesOf lib call a target) (namesSee lib seen a target) := by
  unfold fieldNamesOf
  refine watchedHeap fun h => ?_
  cases a with
  | struct cls =>
    refine (accessorWatched calls "field_names" cls [target]).thenSilent fun v => ?_
    cases v with
    | list l => exact silentHeap fun _ => silentPure _
    | _ => exact silentPure _
  | record => cases target <;> exact silentPure _
  | map => cases target <;> exact silentPure _
  | host cls => cases target <;> exact silentPure _
  | list => exact silentPure _
  | scalar cls => exact silentPure _

theorem copyWatched (r : Address) :
    Watched lib (copyField lib call a source r name) (propertySees lib seen a source name) := by
  unfold copyField
  refine (propertyWatched calls a source name).thenSilent fun v => ?_
  split
  · exact silentHeap fun _ => silentSetHeap _
  · exact silentPure _

theorem copiesWatched (r : Address) (names : List String) :
    Watched lib (names.forM (copyField lib call a source r)) (copySees lib call seen a source r names) := by
  induction names with
  | nil => exact silentPure ()
  | cons name names ih =>
    exact (copyWatched calls a source name r).bind fun _ => ih

theorem mergeWatched (r : Address) :
    Watched lib (mergeFields lib call a source r) (mergeSees lib call seen a source r) :=
  (namesWatched calls a source).bind (copiesWatched calls a source r)

omit calls in
theorem received {β : Type} {f : Value × Stack → Adapter → Run β} {site : Nat} {d : Dynamic} {s under : Stack}
    (is : receiver? d s = under.head?)
    (rest : ∀ target s' a, Watched lib (f (target, s') a) (adaptedSees lib call seen d s target a)) :
    Watched lib (Run.lift (popRef under) >>= fun p => adapterAt lib site p.1 >>= f p)
      (dynamicSees lib call seen site d s) := by
  cases under with
  | nil =>
    refine (silentFault _).congr fun w => ?_
    rw [dynamicSees, is]
    rfl
  | cons target under =>
    have sees : ∀ w, dynamicSees lib call seen site d s w = (w.heap.tag? target).toList ++
        onward (adaptedSees lib call seen d s target) (adapterAt lib site target w) := by
      intro w
      rw [dynamicSees, is]
      rfl
    by_cases null : target = .null
    · subst null
      exact (silentFault _).congr fun w => (sees w).symm
    · have popped : popRef (target :: under) = .ok (target, under) := by
        cases target with
        | null => exact absurd rfl null
        | _ => rfl
      rw [popped]
      exact ((adapterAtWatched lib site target).bind (rest target under)).congr fun w => (sees w).symm

theorem dynamicWatched (site : Nat) (d : Dynamic) (s : Stack) :
    Watched lib (dynamic lib call site d s) (dynamicSees lib call seen site d s) := by
  cases d with
  | getProperty name =>
    refine received (by cases s <;> rfl) fun target s a => ?_
    exact (propertyWatched calls a target name).thenSilent fun _ => silentPure _
  | index =>
    cases s with
    | nil => exact silentFault _
    | cons key s =>
      refine received (by cases s <;> rfl) fun target s a => ?_
      exact (indexWatched calls a target key).thenSilent fun _ => silentPure _
  | iterate =>
    refine received (by cases s <;> rfl) fun target s a => ?_
    refine Watched.thenSilent ?_ fun _ => (silentAlloc _).thenSilent fun _ => silentPure _
    exact silentHeap fun h => by
      cases a with
      | list => cases target <;> exact silentPure _
      | _ => exact silentFault _
  | mergeFields =>
    match s with
    | [] => exact silentFault _
    | source :: [] => exact silentFault _
    | source :: writer :: s =>
      have other : (∀ r, writer ≠ .record r) →
          ∀ w, dynamicSees lib call seen site .mergeFields (source :: writer :: s) w = [] := by
        intro other w
        cases writer with
        | record r => exact absurd rfl (other r)
        | _ => rfl
      have refused : Silent lib (Run.heap >>= fun h => (Run.fault (.classCast "Record" (h.className writer)) : Run Stack)) :=
        silentHeap fun _ => silentFault _
      cases writer with
      | null => exact (silentFault _).congr fun w => (other nofun w).symm
      | record r =>
        have merged : Watched lib (adapterAt lib site source >>= fun a => mergeFields lib call a source r >>= fun _ => pure s)
            (dynamicSees lib call seen site .mergeFields (source :: .record r :: s)) :=
          (adapterAtWatched lib site source).bind fun a => (mergeWatched calls a source r).thenSilent fun _ => silentPure s
        cases source with
        | null => exact silentPure s
        | _ => exact merged
      | _ => exact refused.congr fun w => (other nofun w).symm
  | fieldNames =>
    refine received (by cases s <;> rfl) fun target s a => ?_
    exact (namesWatched calls a target).thenSilent fun _ => (silentAlloc _).thenSilent fun _ => silentPure _

end Accessors

/-! ### Steps -/

section Steps

variable {lib : Library} {call : Call} {apply : Callback → Value → Run Value} {seen : Sighting}
  {resumed : Callback → Value → World → List Tag} (calls : ∀ m args, Watched lib (call m args) (seen m args))
  (resumes : ∀ f v, Watched lib (apply f v) (resumed f v))

omit calls
include resumes

theorem chainWatched (p : Address) (f : Callback) :
    Watched lib (chain apply p f) fun w => chainSees resumed p f w.heap w := by
  refine watchedAtHeap fun h => ?_
  unfold chainSees
  cases h.promise? p with
  | none => exact (silentSetHeap _).thenSilent fun _ => silentPure _
  | some r =>
    cases r with
    | error e => exact (silentPure _).thenSilent fun _ => silentAlloc _
    | ok v => exact (resumes f v).attempt.thenSilent fun _ => silentAlloc _

omit resumes in
theorem awaitSilent (p : Address) (t : Timeout) : Silent lib (await p t) := by
  refine silentHeap fun h => ?_
  cases h.promise? p with
  | some r => exact silentLift r
  | none =>
    cases t.deadline with
    | none => exact silentThrow _
    | some d => exact (silentSetHeap _).thenSilent fun _ => silentFault _

omit resumes in
theorem popRefOk {s s' : Stack} {v : Value} (ok : popRef s = .ok (v, s')) : s = v :: s' := by
  cases s with
  | nil => contradiction
  | cons u rest => cases u <;> cases ok <;> rfl

omit resumes in
theorem popRefError {s : Stack} {e : Fault} (failed : popRef s = .error e) : s = [] ∨ ∃ rest, s = .null :: rest := by
  cases s with
  | nil => exact .inl rfl
  | cons u rest =>
    cases u with
    | null => exact .inr ⟨rest, rfl⟩
    | _ => contradiction

theorem thenWatched (s : Stack) :
    Watched lib (native apply .promiseThen s) (opSees lib call seen resumed (.native .promiseThen) s) := by
  refine watchedHeap fun h => watchedLift (fun e failed w => ?_) ?_
  · rcases popRefError failed with rfl | ⟨rest, rfl⟩ <;> rfl
  rintro ⟨f, s'⟩ ok
  cases popRefOk ok
  cases f with
  | function cls name =>
    refine watchedLift (fun e failed w => ?_) ?_
    · rcases popRefError failed with rfl | ⟨rest, rfl⟩ <;> rfl
    rintro ⟨p, s''⟩ ok
    cases popRefOk ok
    refine watchedLift (fun e failed w => ?_) fun a is => ?_
    · cases p with
      | promise => contradiction
      | _ => rfl
    · cases p with
      | promise =>
        cases is
        exact (chainWatched resumes a ⟨cls, name⟩).thenSilent fun _ => silentPure _
      | _ => contradiction
  | _ => exact silentFault _

theorem nativeWatched (n : Native) (s : Stack) :
    Watched lib (native apply n s) (opSees lib call seen resumed (.native n) s) := by
  cases n with
  | promiseThen => exact thenWatched resumes s
  | newList => exact silentHeap fun _ => (silentAlloc _).thenSilent fun _ => silentPure _
  | listAdd =>
    refine silentHeap fun h => (silentLift _).thenSilent fun _ => (silentLift _).thenSilent fun _ => ?_
    exact (silentLift _).thenSilent fun _ => (silentSetHeap _).thenSilent fun _ => silentPure _
  | listSet =>
    refine silentHeap fun h => (silentLift _).thenSilent fun _ => (silentLift _).thenSilent fun _ => ?_
    refine (silentLift _).thenSilent fun _ => (silentLift _).thenSilent fun _ => (silentLift _).thenSilent fun _ => ?_
    exact (silentSetHeap _).thenSilent fun _ => silentPure _
  | newMap => exact silentHeap fun _ => (silentAlloc _).thenSilent fun _ => silentPure _
  | mapPut =>
    refine silentHeap fun h => (silentLift _).thenSilent fun _ => (silentLift _).thenSilent fun _ => ?_
    refine (silentLift _).thenSilent fun _ => (silentLift _).thenSilent fun _ => ?_
    exact (silentSetHeap _).thenSilent fun _ => silentPure _
  | newRecord => exact silentHeap fun _ => (silentAlloc _).thenSilent fun _ => silentPure _
  | recordPut =>
    refine silentHeap fun h => (silentLift _).thenSilent fun _ => (silentLift _).thenSilent fun _ => ?_
    refine (silentLift _).thenSilent fun _ => (silentLift _).thenSilent fun _ => (silentLift _).thenSilent fun _ => ?_
    exact (silentSetHeap _).thenSilent fun _ => silentPure _
  | promiseGet =>
    refine silentHeap fun h => (silentLift _).thenSilent fun _ => (silentLift _).thenSilent fun _ => ?_
    refine (silentLift _).thenSilent fun _ => (silentLift _).thenSilent fun _ => ?_
    exact (awaitSilent _ _).thenSilent fun _ => silentPure _
  | _ => exact silentHeap fun _ => silentLift _

omit resumes in
theorem staticSilent (cls name : String) (f : Fault) :
    Silent lib ((get : Run World) >>= fun w => Run.orFault f (w.static? cls name)) := by
  refine silentOf (fun h s => (match s.lookup (cls, name) with | some v => .ok v | none => .error (.fault f), h, s)) ?_
  intro w
  change Run.orFault f (w.statics.lookup (cls, name)) w = _
  cases w.statics.lookup (cls, name) <;> rfl

omit resumes in
theorem setStaticSilent (cls name text : String) (v : Value) (s : Stack) : Silent lib ((get : Run World) >>= fun w =>
    if (w.setStatic cls name v).1 then set (w.setStatic cls name v).2 >>= fun _ => pure s
    else Run.fault (.propertyNotFound text)) := by
  refine silentOf (fun h statics => if (statics.lookup (cls, name)).isSome
    then (.ok s, h, statics.map fun entry => (entry.1, if entry.1 == (cls, name) then v else entry.2))
    else (.error (.fault (.propertyNotFound text)), h, statics)) ?_
  intro w
  change (if (w.setStatic cls name v).1 then _ else Run.fault (.propertyNotFound text) : Run Stack) w = _
  unfold World.setStatic World.static?
  cases (w.statics.lookup (cls, name)).isSome <;> rfl

include calls

theorem outerWatched (op : Op) (s : Stack) :
    Watched lib (outer lib call apply op s) (opSees lib call seen resumed op s) := by
  cases op with
  | new cls => exact silentHeap fun _ => (silentLift _).thenSilent fun _ => (silentAlloc _).thenSilent fun _ => silentPure _
  | getField f =>
    refine silentHeap fun h => (silentLift _).thenSilent fun ⟨target, s⟩ => ?_
    cases target with
    | object a => exact (silentOrFault _ _).thenSilent fun _ => silentPure _
    | _ => exact silentFault _
  | putField f =>
    refine silentHeap fun h => (silentLift _).thenSilent fun ⟨v, s⟩ => (silentLift _).thenSilent fun ⟨target, s⟩ => ?_
    cases target with
    | object a => exact (silentOrFault _ _).thenSilent fun _ => (silentSetHeap _).thenSilent fun _ => silentPure _
    | _ => exact silentFault _
  | getStatic f =>
    refine silentHeap fun h => (silentLift _).thenSilent fun c => ?_
    exact (staticSilent c.name f.name (.propertyNotFound f.text)).thenSilent fun v => silentPure (push v s)
  | putStatic f =>
    refine silentHeap fun h => (silentLift _).thenSilent fun ⟨v, s⟩ => (silentLift _).thenSilent fun c => ?_
    exact setStaticSilent c.name f.name f.text v s
  | invoke m =>
    refine watchedHeap fun h => watchedLift (fun e failed w => ?_) fun callee found => ?_
    · simp only [opSees, failed]
    · refine ((calls callee (s.take m.argSlots).reverse).thenSilent fun _ => silentPure _).congr fun w => ?_
      simp only [opSees, found]
  | function m => exact silentHeap fun _ => (silentLift _).thenSilent fun _ => silentPure _
  | native n => exact watchedHeap fun _ => nativeWatched resumes n s
  | dynamic site d => exact watchedHeap fun _ => dynamicWatched calls site d s
  | _ => exact silentHeap fun _ => silentPure _

omit calls resumes in
theorem coreSees {h : Heap} {m : Method} {op : Op} {s : Stack} {ls : List Value} {r : Except Fault Next}
    (is : core h m op s ls = some r) (w : World) : opSees lib call seen resumed op s w = [] := by
  cases op with
  | invoke | native | dynamic => contradiction
  | _ => rfl

theorem stepWatched (op : Op) (a : Activation) :
    Watched lib (step lib call apply op a) (opSees lib call seen resumed op a.stack) := by
  unfold step
  refine watchedHeap fun h => ?_
  cases known : core h a.method op a.stack a.locals with
  | some r => exact (silentLift r).congr fun w => (coreSees known w).symm
  | none => exact (outerWatched calls resumes op a.stack).thenSilent fun _ => silentPure _

end Steps

/-! ### Runs -/

section Runs

variable {lib : Library} {run : Nat → Activation → Run Value} {see : Nat → Activation → World → List Tag}
  (runs : ∀ depth a, Watched lib (run depth a) (see depth a))
include runs

theorem enterWatched (depth : Nat) (m : Method) (args : List Value) :
    Watched lib (enter run depth m args) (enterSees see depth m args) := by
  unfold enter enterSees
  by_cases deep : maxDepth ≤ depth
  · simp only [deep, if_true]
    exact silentFault _
  · simp only [deep, if_false]
    exact runs (depth + 1) (.start m args)

theorem continueWatched (f : Callback) (v : Value) :
    Watched lib (continueWith lib run f v) (continueSees lib see f v) := by
  refine watchedLift (fun e failed w => ?_) fun m found => ?_
  · simp only [continueSees, failed]
  · refine (enterWatched runs 0 m (slotsOf [v])).congr fun w => ?_
    simp only [continueSees, found]

end Runs

def restRun (run : Activation → Run Value) (a : Activation) : Except Stop Next → Run Value
  | .ok (.next s ls) => run { a with pc := a.pc + 1, stack := s, locals := ls }
  | .ok (.jump pc s ls) => run { a with pc, stack := s, locals := ls }
  | .ok (.done v) => pure v
  | .error (.fault f) => match a.method.handlerFor? a.pc f with
    | some pc => run { a with pc, stack := [.throwable f] }
    | none => Run.fault f
  | .error .never => Run.never

theorem restWatched {lib : Library} {run : Activation → Run Value} {see : Activation → World → List Tag}
    (runs : ∀ a, Watched lib (run a) (see a)) (a : Activation) (x : Except Stop Next) :
    Watched lib (restRun run a x) (restSees see a x) := by
  rcases x with (f | _) | n
  · simp only [restRun, restSees]
    cases a.method.handlerFor? a.pc f with
    | some pc => exact runs _
    | none => exact silentFault f
  · exact silentThrow .never
  · cases n with
    | next | jump => exact runs _
    | done v => exact silentPure v

theorem execWatched (lib : Library) (fuel depth : Nat) (a : Activation) :
    Watched lib (exec lib fuel depth a) (sees lib fuel depth a) := by
  induction fuel generalizing depth a with
  | zero => exact silentThrow .never
  | succ fuel ih =>
    cases here : a.method.ops[a.pc]? with
    | none =>
      have off : exec lib (fuel + 1) depth a = Run.fault (.failed "control fell off the end of a method") := by
        simp only [exec, here]
      rw [off]
      exact (silentFault _).congr fun w => by simp only [sees, here]
    | some op =>
      have turned := stepWatched (enterWatched ih depth) (continueWatched ih) op a
      refine turned.followed (restRun (exec lib fuel depth) a) (restSees (sees lib fuel depth) a) ?_ ?_ fun w => ?_
      · exact restWatched (ih depth) a
      · intro w
        simp only [exec, here]
        rcases step lib (enter (exec lib fuel) depth) (continueWith lib (exec lib fuel)) op a w with ⟨(f | _) | n, w'⟩
        · simp only [restRun]
          cases a.method.handlerFor? a.pc f <;> rfl
        · rfl
        · cases n <;> rfl
      · simp only [sees, here]
        rfl

/-! ### Sequences of calls -/

/-- A dynamic call: its site, and what it finds on the stack and among the objects. -/
structure Invocation where
  site : Nat
  operation : Dynamic
  stack : Stack
  heap : Heap
  statics : List ((String × String) × Value)
  fuel : Nat
  depth : Nat

namespace Invocation

variable (lib : Library) (i : Invocation)

def meets (w : World) : World := { w with heap := i.heap, statics := i.statics }

def answer (w : World) : Except Stop Stack × World :=
  dynamic lib (enter (exec lib i.fuel) i.depth) i.site i.operation i.stack (i.meets w)

def dispatches (w : World) : List Tag :=
  dynamicSees lib (enter (exec lib i.fuel) i.depth) (enterSees (sees lib i.fuel) i.depth) i.site i.operation i.stack
    (i.meets w)

def after (lib : Library) (w : World) (calls : List Invocation) : World := calls.foldl (fun w i => (i.answer lib w).2) w

def history (lib : Library) (w : World) : List Invocation → List Tag
  | [] => []
  | i :: rest => i.dispatches lib w ++ history lib (i.answer lib w).2 rest

end Invocation

section Sequences

variable {lib : Library} {w : World}

theorem Invocation.answers (coherent : Coherent lib w) (i : Invocation) : Coherent lib (i.answer lib w).2 ∧
    (∀ t, t ∈ (i.answer lib w).2.tags ↔ t ∈ w.tags ∨ t ∈ i.dispatches lib w ∧ Loads lib t) ∧
    ∀ v, Coherent lib v → (i.answer lib w).1 = (i.answer lib v).1 ∧ (i.answer lib w).2.Beside (i.answer lib v).2 := by
  have meets : ∀ w, Coherent lib w → Coherent lib (i.meets w) := fun w c => ⟨c.linker, c.distinct, c.counted, c.sites⟩
  obtain ⟨after, tags, alike⟩ := dynamicWatched (enterWatched (execWatched lib i.fuel) i.depth) i.site i.operation i.stack
    (i.meets w) (meets w coherent)
  exact ⟨after, tags, fun v other => alike (i.meets v) (meets v other) ⟨rfl, rfl⟩⟩

theorem Invocation.afterCoherent (coherent : Coherent lib w) (calls : List Invocation) :
    Coherent lib (after lib w calls) ∧
      ∀ t, t ∈ (after lib w calls).tags ↔ t ∈ w.tags ∨ t ∈ history lib w calls ∧ Loads lib t := by
  induction calls generalizing w with
  | nil => exact ⟨coherent, fun t => by simp [after, history]⟩
  | cons i rest ih =>
    obtain ⟨coherent', tags, -⟩ := i.answers coherent
    obtain ⟨finally', tags'⟩ := ih coherent'
    refine ⟨finally', fun t => ?_⟩
    change t ∈ (after lib (i.answer lib w).2 rest).tags ↔ _
    rw [tags', tags, history, List.mem_append, or_and_right, or_assoc]

/-- Caches cannot be told from no caches, and the linker makes one adapter for each sort of object. -/
theorem cachesInvisible (lib : Library) (earlier : List Invocation) (i : Invocation) (heap : Heap) :
    let w := Invocation.after lib (.empty heap) earlier
    (i.answer lib w).1 = (i.answer lib w.forgetful).1 ∧
      (i.answer lib w).2.Beside (i.answer lib w.forgetful).2 ∧
      w.linker.generated = ((Invocation.history lib (.empty heap) earlier).filter (loaded lib)).dedup.length := by
  intro w
  obtain ⟨coherent, tags⟩ := Invocation.afterCoherent (Coherent.forgetful lib (.empty heap)) earlier
  obtain ⟨same, beside⟩ := (i.answers coherent).2.2 w.forgetful (Coherent.forgetful lib w)
  refine ⟨same, beside, coherent.counted.trans (List.Perm.length_eq ?_)⟩
  refine (List.perm_ext_iff_of_nodup coherent.distinct (List.nodup_dedup _)).2 fun t => ?_
  rw [tags, List.mem_dedup, List.mem_filter, loadsIff]
  exact or_iff_right nofun

end Sequences

end Machine

end QueryMachine
