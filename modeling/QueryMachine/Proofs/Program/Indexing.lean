import QueryMachine.Proofs.Machine.Dispatch
import QueryMachine.Proofs.Program.Verified
import QueryMachine.Proofs.Scalar.Cast
import QueryMachine.Proofs.Scalar.Correct

/-! Elements of lists by integer keys. Where the type of a list is known its keys are cut to 32 bits first; where it is not
they keep all their bits. The two find the same element, or none, for every key of 32 bits. -/
namespace QueryMachine

open Build (Ends)
open Conversion (castOps?)

def IndexAccess.position? : IndexAccess → Int → Option Int
  | .list _, n => some (Prim.int32.wrap n)
  | .dynamic, n => some n
  | _, _ => none

/-- Null, or an object of the class that values of the type are of. -/
def Ty.Admits (t : Ty) (h : Heap) (u : Value) : Prop :=
  u = .null ∨ u.isObject = true ∧ ∀ cls, t.rep = .ref cls → h.isInstance u cls = true

theorem Ty.Admits.any {t : Ty} {h : Heap} {u : Value} (admits : t.Admits h u) : Ty.any.Admits h u := by
  rcases admits with rfl | ⟨object, _⟩
  · exact .inl rfl
  · refine .inr ⟨object, fun cls same => ?_⟩
    cases same
    unfold Heap.isInstance
    rw [object]
    rfl

namespace Machine

def fetch (items : Array Value) (i : Int) : Except Fault Value :=
  (bounds i items.size).map fun i => (items[i]?).getD .null

namespace Thread

variable {θ : Thread} {w : World} {s : Stack} {ls : List Value} {K K' : Slots → Asm → Prop} {σ : Slots} {X C : Asm}
  {c : Scalar} {n : Int} {r : Except Fault Value} {v : Value}

theorem guardedDoes {target present : Ty} {held : Local} (guarded : Guarded K K' target present held σ X)
    (nullable : target.isNullable = true) (plain : present.isPrimitive = false) (narrow : held.type.width ≠ 2)
    (object : v.isObject = true) (operand : ∀ B, K σ B → θ.Runs w B s ls (.ok (.on (v :: s) ls)))
    (body : ∀ slot B, σ.Holds held slot → K' σ B → ∃ w', w.Beside w' ∧
      θ.Does w B s (ls.set slot v) (r.map fun u => .on (u :: s) (ls.set slot v)) w') :
    ∃ ls' w', w.Beside w' ∧ θ.Does w X s ls (r.map fun u => .on (u :: s) ls') w' := by
  obtain ⟨T, P, isNull, done, there, slot, os, shape, holds, inner, cast, rfl⟩ := guarded
  have same : castOps? present.boxed.orNull present = some [] := by
    have rep : present.boxed.orNull.rep = present.rep := by
      cases present with
      | prim p => contradiction
      | atom n a => cases a <;> rfl
      | carrier n c t => cases c <;> rfl
      | _ => rfl
    exact if_pos rep
  cases same.symm.trans cast
  obtain ⟨w', beside, reads⟩ := body slot P holds inner
  refine ⟨ls.set slot v, w', beside, ?_⟩
  have tested : θ.Runs w (Asm.nullTest target isNull there) (v :: s) ls (.ok (.on (v :: s) ls)) := by
    unfold Asm.nullTest
    rw [if_pos nullable]
    have left : core w.heap θ.method (.ifNonNull there) (v :: v :: s) ls =
        some (.ok (.jump (θ.method.position there) (v :: s) ls)) := by
      cases v <;> first | contradiction | rfl
    refine runsOp (t := v :: v :: s) rfl ?_
    exact runsLand (X := [.op (.ifNonNull there)]) (Y := [.op (.pop 1), .op (.jump isNull)]) (runsLeave left) runsNil
  have stored : θ.Runs w [.op (held.storeAt slot)] (v :: s) ls (.ok (.on s (ls.set slot v))) := by
    unfold Local.storeAt
    rw [if_neg narrow]
    have stores : core w.heap θ.method (.store slot) (v :: s) ls = some (.ok (.next s (ls.set slot v))) := by
      cases v <;> first | contradiction | rfl
    exact runsOp stores runsNil
  have first := runsAppend (runsAppend (operand T shape) tested) stored
  have whole := doesAppend first.does reads
  cases r with
  | error f =>
    have failed := doesError whole (Asm.straight [] ++ [.op (.jump done), .mark isNull, .op .constNull, .mark done])
    simpa [Asm.straight, Except.map] using failed
  | ok u =>
    have left := doesAppend whole (runsJump (l := done) (X := [])).does
    have stays : θ.Runs w' [] (u :: s) (ls.set slot v) (.ok (.on (u :: s) (ls.set slot v))) := runsNil
    have landed := doesLand (Y := [.mark isNull, .op .constNull]) left stays.does
    simpa [Asm.straight, Except.map] using landed

/-! ### Keys -/

theorem intKeyRuns (operand : ∀ B, K σ B → θ.Yields ls B c (.ok (some n))) (converted : Converted K .int32 c.type σ C) :
    θ.Runs w C s ls (.ok (.on (.int (.ofInt (Prim.int32.wrap n)) :: s) ls)) := by
  obtain ⟨B, os, shape, cast, rfl⟩ := converted
  obtain ⟨admits, runs⟩ := operand B shape
  have cut : θ.Runs w (Asm.straight os) (push (c.value (some n)) s) ls _ := cutRuns (q := .int32) cast (admits _ rfl) rfl
  exact runsAppend (runs w s) cut

theorem anyCast (c : Scalar) : castOps? .any c.type = some (if c.form = .raw then [.box c.kind] else []) := by
  obtain ⟨p, form⟩ := c
  have other : Rep.object ≠ .ref p.boxClass := fun same => Scalar.boxClassObject p (Rep.ref.inj same).symm
  cases form with
  | raw => rfl
  | _ => simp [castOps?, Scalar.type, Ty.rep, Ty.any, other]

theorem anyKeyRuns (operand : ∀ B, K σ B → θ.Yields ls B c (.ok (some n))) (converted : Converted K .any c.type σ C) :
    θ.Runs w C s ls (.ok (.on (.boxed (c.kind.inBox n) :: s) ls)) := by
  obtain ⟨B, os, shape, cast, rfl⟩ := converted
  obtain ⟨admits, runs⟩ := operand B shape
  cases (anyCast c).symm.trans cast
  refine runsAppend (runs w s) ?_
  have holds : c.kind.Holds n := admits _ rfl
  obtain ⟨p, form⟩ := c
  cases form with
  | raw => exact runsStraight (Prim.boxPerforms holds)
  | _ => exact runsNil

theorem boxedKey {p : Prim} (holds : p.Holds n) (integer : p.isInteger) :
    ∃ i, (Value.boxed (p.inBox n)).integer? = some i ∧ i.toInt = n := by
  have whole := Prim.wrapSame integer holds
  cases p with
  | int8 => exact ⟨_, rfl, (Int8.toInt_toInt64 _).trans ((Int8.toInt_ofInt ..).trans whole)⟩
  | int16 => exact ⟨_, rfl, (Int16.toInt_toInt64 _).trans ((Int16.toInt_ofInt ..).trans whole)⟩
  | int32 => exact ⟨_, rfl, (Int32.toInt_toInt64 _).trans ((Int32.toInt_ofInt ..).trans whole)⟩
  | int64 => exact ⟨_, rfl, Prim.int64ToInt holds⟩
  | _ => contradiction

/-! ### Reads -/

theorem downcastRuns {t : Ty} {u : Value} (admits : t.Admits w.heap u) :
    θ.Runs w (Asm.downcast t) (u :: s) ls (.ok (.on (u :: s) ls)) := by
  unfold Asm.downcast
  split
  · exact runsNil
  · split
    · next cls rep =>
      have passes : (u.isObject && !w.heap.isInstance u cls) = false := by
        rcases admits with rfl | ⟨_, instance_⟩
        · rfl
        · rw [instance_ cls rep, Bool.not_true, Bool.and_false]
      have checked : core w.heap θ.method (.checkCast cls) (u :: s) ls = some (.ok (.next (u :: s) ls)) := by
        simp [core, passes]
      exact runsOp checked runsNil
    · exact runsNil

theorem fetched {items : Array Value} {i : Int} {u : Value} (is : fetch items i = .ok u) : u ∈ items := by
  unfold fetch bounds at is
  split at is
  · next inside =>
    cases is
    have low : i.toNat < items.size := by omega
    simp only [Array.getElem?_eq_getElem low, Option.getD_some]
    exact Array.getElem_mem low
  · contradiction

theorem listGetDoes {addr : Address} {i : Int32} : θ.Does w [.op (.native .listGet)] (.int i :: .list addr :: s) ls
    ((fetch (w.heap.list addr) i.toInt).map fun u => .on (u :: s) ls) w := by
  have reads : readOnly w.heap .listGet (.int i :: .list addr :: s) =
      some ((fetch (w.heap.list addr) i.toInt).map fun u => u :: s) := by
    unfold fetch
    change some (bounds i.toInt (w.heap.list addr).size >>= fun i => .ok (((w.heap.list addr)[i]?).getD .null :: s)) = _
    cases bounds i.toInt (w.heap.list addr).size <;> rfl
  rintro p q ⟨here, rfl⟩
  cases answer : fetch (w.heap.list addr) i.toInt with
  | ok u =>
    rw [answer] at reads
    exact calls here reads
  | error f =>
    rw [answer] at reads
    exact callsFault here reads

theorem listRuns {l : Local} {addr : Address} (narrow : l.type.width = 1)
    (held : ∀ slot, σ.Holds l slot → ls[slot]? = some (.list addr)) (read : Read l σ X) :
    θ.Runs w X s ls (.ok (.on (.list addr :: s) ls)) := by
  obtain ⟨slot, holds, rfl⟩ := read
  have loads : core w.heap θ.method (l.loadAt slot) s ls = some (.ok (.next (.list addr :: s) ls)) := by
    unfold Local.loadAt
    rw [narrow, if_neg (by decide)]
    change some (Except.ok (Next.next ((ls[slot]?).getD .null :: s) ls)) = _
    rw [held slot holds]
    rfl
  exact runsOp loads runsNil

theorem itemOf (lib : Library) (call : Call) {addr : Address} {key : Value} {i : Int64} (is : key.integer? = some i)
    (w : World) : indexOf lib call .list (.list addr) key w = Run.lift (fetch (w.heap.list addr) i.toInt) w := by
  unfold indexOf
  rw [is]
  change ((Run.lift (bounds i.toInt (w.heap.list addr).size)) >>= fun i => (return ((w.heap.list addr)[i]?).getD .null) :
    Run Value) w = _
  unfold fetch
  cases bounds i.toInt (w.heap.list addr).size <;> rfl

theorem dynamicIndexDoes {addr : Address} {site : Nat} {b : Boxed} {i : Int64} (coherent : Coherent θ.library w)
    (is : (Value.boxed b).integer? = some i) (elements : ∀ u ∈ w.heap.list addr, Ty.any.Admits w.heap u) :
    ∃ w', w.Beside w' ∧ θ.Does w [.op (.dynamic site .index)] (.boxed b :: .list addr :: s) ls
      ((fetch (w.heap.list addr) i.toInt).map fun u => .on (u :: s) ls) w' := by
  have learns : Learns θ.library .list w (adapterAt θ.library site (.list addr) w) := adapterAtLearns coherent site rfl
  have adapts : adapterAt θ.library site (.list addr) w = (.ok .list, (adapterAt θ.library site (.list addr) w).2) :=
    Prod.ext (learns.made.trans rfl) rfl
  have beside := learns.beside
  generalize (adapterAt θ.library site (.list addr) w).2 = w' at adapts beside
  refine ⟨w', beside, ?_⟩
  have reads : ∀ call apply, outer θ.library call apply (.dynamic site .index) (.boxed b :: .list addr :: s) w =
      (indexOf θ.library call .list (.list addr) (.boxed b) >>= fun v => return push v s : Run Stack) w' := by
    intro call apply
    change (adapterAt θ.library site (.list addr) >>= fun a => indexOf θ.library call a (.list addr) (.boxed b) >>= fun v =>
      return push v s : Run Stack) w = _
    rw [Run.bindOk adapts]
  rintro p q ⟨here, rfl⟩
  have item : ∀ call, indexOf θ.library call .list (.list addr) (.boxed b) w' = _ :=
    fun call => itemOf θ.library call is w'
  rw [← beside.heap] at item
  cases answer : fetch (w.heap.list addr) i.toInt with
  | ok u =>
    simp only [answer] at item
    have narrow : push u s = u :: s := by
      rcases elements u (fetched answer) with rfl | ⟨object, _⟩
      · rfl
      · cases u <;> first | contradiction | rfl
    refine Scene.outers (θ := θ.scene) here rfl fun call apply => ?_
    refine (reads call apply).trans ?_
    rw [Run.bindOk (item call), narrow]
    rfl
  | error f =>
    simp only [answer] at item
    refine courseFault (a := ⟨p, _, ls, w⟩) here fun fuel => ?_
    rw [turnOuter (a := ⟨p, _, ls, w⟩) rfl]
    exact Run.bindError ((reads _ _).trans (Run.bindError (item _)))

theorem indexedDoes {a : IndexAccess} {addr : Address} {i : Int} (indexed : Indexed K K' a c.type σ X)
    (position : a.position? n = some i) (coherent : Coherent θ.library w)
    (elements : ∀ u ∈ w.heap.list addr, a.itemType.Admits w.heap u) (integer : c.kind.isInteger)
    (target : ∀ B, K σ B → θ.Runs w B s ls (.ok (.on (.list addr :: s) ls)))
    (key : ∀ B, K' σ B → θ.Yields ls B c (.ok (some n))) :
    ∃ w', w.Beside w' ∧ θ.Does w X s ls ((fetch (w.heap.list addr) i).map fun u => .on (u :: s) ls) w' := by
  obtain ⟨B, C, o, shape, converted, op, rfl⟩ := indexed
  have read : ∃ w', w.Beside w' ∧ θ.Does w (B ++ C ++ [.op o]) s ls
      ((fetch (w.heap.list addr) i).map fun u => .on (u :: s) ls) w' := by
    cases a with
    | list elem =>
      cases op
      cases position
      have keyed := intKeyRuns (w := w) (s := .list addr :: s) key converted
      have got : θ.Does w _ (.int (.ofInt (Prim.int32.wrap n)) :: .list addr :: s) ls _ w := listGetDoes
      rw [Prim.int32ToInt (p := .int32) (Prim.wrapHolds rfl n) nofun] at got
      exact ⟨w, ⟨rfl, rfl⟩, doesAppend (runsAppend (target B shape) keyed).does got⟩
    | dynamic =>
      obtain ⟨site, rfl⟩ := op
      cases position
      have keyed := anyKeyRuns (w := w) (s := .list addr :: s) key converted
      obtain ⟨D, _, keyShape, _⟩ := id converted
      obtain ⟨m, found, same⟩ := boxedKey ((key D keyShape).admits _ rfl) integer
      obtain ⟨w', beside, got⟩ : ∃ w', w.Beside w' ∧ θ.Does w [.op (.dynamic site .index)] (.boxed _ :: .list addr :: s) ls _ w' :=
        dynamicIndexDoes coherent found elements
      rw [same] at got
      exact ⟨w', beside, doesAppend (runsAppend (target B shape) keyed).does got⟩
    | record => contradiction
    | map key value => contradiction
  obtain ⟨w', beside, does⟩ := read
  refine ⟨w', beside, ?_⟩
  cases answer : fetch (w.heap.list addr) i with
  | error f =>
    rw [answer] at does
    exact doesError does _
  | ok u =>
    rw [answer] at does
    have admits : a.itemType.Admits w'.heap u := by
      rw [← beside.heap]
      exact elements u (fetched answer)
    exact doesAppend does (downcastRuns admits).does

end Thread

end Machine

namespace Compiler

/-! ### Code -/

def indexNode (x k : String) (first second whole : Location) : Node :=
  .mk .index [.node (.mk .argument [.name x] first), .node (.mk .argument [.name k] second)] whole

def Picked (frame : FrameId) (target key : Local) (a : IndexAccess) (σ : Slots) (X : Asm) : Prop :=
  if target.type.isNullable then ∃ held : Local, held.frame = frame ∧ key.index < held.index ∧ held.type = target.type.nonNull ∧
    Guarded (Read target) (Indexed (Read held) (Read key) a key.type) target.type a.itemType held σ X
  else Indexed (Read target) (Read key) a key.type σ X

variable {s : Session} {env : Lowering.Env} {target key : Local} {a : IndexAccess} {x k : String}

theorem readAdvances {l : Local} {name : String} (good : s.Good) (found : env.arguments.lookup name = some l)
    (frame : l.frame = env.frame) (has : s.frames.Has l) (location : Location) :
    Advances (Lowering.ofNode (.mk .argument [.name name] location) env) s fun y s' => y = l.read ∧ s'.frames.Has l ∧
      l.read.Writes Refusal s'.Knows (Visible env.frame [] s'.frames) (Read l) := by
  refine Account.locatedAdvances location ?_
  change Advances (Lowering.argumentNamed name env) s _
  unfold Lowering.argumentNamed
  rw [found]
  refine advancesPure good ⟨rfl, has, localWrites (good.locals l has) fun fs σ visible => ?_⟩
  exact visible.root l frame (has.later visible.grows)

theorem ofReference {t : Ty} (of : IndexAccess.of? t = some a) : t.isPrimitive = false := by
  cases t with
  | prim p => contradiction
  | _ => rfl

theorem itemReference {t : Ty} {knows : String → Prop} (regular : t.Regular knows) (of : IndexAccess.of? t = some a) :
    a.itemType.isPrimitive = false := by
  cases regular with
  | prim => contradiction
  | @atom n a =>
    cases a with
    | record | any =>
      cases of
      rfl
    | _ => contradiction
  | list _ reference =>
    cases of
    exact Ty.withNullReference true reference
  | map _ _ _ reference =>
    cases of
    exact Ty.withNullReference true reference
  | struct => contradiction

theorem pickAdvances (good : s.Good) (list : env.arguments.lookup x = some target) (keyed : env.arguments.lookup k = some key)
    (frame : target.frame = env.frame) (keyFrame : key.frame = env.frame) (has : s.frames.Has target)
    (hasKey : s.frames.Has key) (low : env.frame < s.frames.table.size) (first second whole : Location) :
    Advances (Lowering.ofNode (indexNode x k first second whole) env) s fun y s' => y.type.isPrimitive = false ∧
      ∃ a, IndexAccess.of? target.type = some a ∧
        y.Writes Refusal s'.Knows (Visible env.frame [] s'.frames) (Picked env.frame target key a) := by
  refine Account.locatedAdvances whole ?_
  refine advancesBind (readAdvances good list frame has first) ?_
  intro _ s₁ later₁ good ⟨is, has, writes⟩
  cases is
  refine advancesBind (readAdvances good keyed keyFrame (hasKey.later later₁.frames) second) ?_
  intro _ s₂ later₂ good ⟨is, hasKey, keyWrites⟩
  cases is
  have writes : target.read.Writes Refusal s₂.Knows (Visible env.frame [] s₂.frames) (Read target) :=
    writes.later later₂.knows fun _ _ visible => visible.earlier later₂.frames
  change Advances (Build.index env.frame target.read key.read) s₂ _
  unfold Build.index
  cases of : IndexAccess.of? target.type with
  | none =>
    rw [show IndexAccess.of? target.read.type = none from of]
    exact advancesFail good rfl
  | some a =>
    rw [show IndexAccess.of? target.read.type = some a from of]
    have low := Nat.lt_of_lt_of_le low (later₁.trans later₂).frames.more
    have below : key.index < (s₂.frames.frame env.frame).locals.length := by
      rw [← keyFrame]
      exact (List.getElem?_eq_some_iff.1 hasKey.here).1
    refine guardAdvances good low writes ?_ ?_
    · intro direct
      have direct : target.type.isNullable = false := direct
      have reads := indexSteady writes.regular of writes (ofReference of) keyWrites fun _ _ _ => rfl
      refine (advancesSteady good reads).mono ?_
      intro y s₃ later _ ⟨type, made⟩
      refine ⟨type ▸ itemReference writes.regular of, a, rfl, ?_⟩
      unfold Picked
      rw [direct]
      exact made.later later.knows fun _ _ visible => visible.earlier later.frames
    · intro nullable l s₃ later good here index type read
      have keyWrites : key.read.Writes Refusal s₃.Knows (Visible env.frame [] s₃.frames) (Read key) :=
        keyWrites.later later.knows fun _ _ visible => visible.earlier later.frames
      have reference : l.read.type.isPrimitive = false := by
        change l.type.isPrimitive = false
        rw [type]
        exact Ty.withNullReference false (ofReference of)
      have reads := indexSteady (writes.regular.mono later.knows) of read reference keyWrites fun _ _ _ => rfl
      refine (advancesSteady good reads).mono ?_
      intro y s₄ later₄ _ ⟨is, made⟩
      refine ⟨_, made.later later₄.knows fun _ _ visible => visible.earlier later₄.frames, ?_⟩
      intro z same guarded
      refine ⟨?_, a, rfl, guarded.mono ?_⟩
      · rw [same]
        exact Ty.orNullReference y.type
      · intro σ X shape
        rw [is] at shape
        unfold Picked
        rw [if_pos (show target.type.isNullable = true from nullable)]
        exact ⟨l, here, index ▸ below, type, shape⟩

/-! ### Methods -/

def Picking (s : Session) (m : MethodDraft) (a : IndexAccess) : Prop :=
  ∃ timeout target key : Local, m.locals = [timeout, target, key] ∧ IndexAccess.of? target.type = some a ∧
    m.Ready Refusal s.Knows s.frames (Returned (Picked m.frame target key a) .any) ∧ m.Roomy s.frames

theorem Picking.later {m : MethodDraft} {s' : Session} (picking : Picking s m a) (later : s.Later s') : Picking s' m a := by
  obtain ⟨timeout, target, key, locals, of, ready, roomy⟩ := picking
  exact ⟨timeout, target, key, locals, of, ready.mono (fun _ h => h) later.knows later.frames fun _ _ _ h => h,
    roomy.later later.frames⟩

variable {e : Entry} {m : MethodDraft} {types : List Ty} {list keys : ValueType}

theorem Drafted.pair (drafted : Drafted e s m types) (params : e.params = [(x, list), (k, keys)]) :
    ∃ timeout target key : Local, m.locals = [timeout, target, key] ∧ types = [target.type, key.type] := by
  have two := drafted.resolved.length_eq
  rw [params] at two
  obtain ⟨t₁, t₂, rfl⟩ := List.length_eq_two.1 two.symm
  have locals := drafted.locals
  rw [params] at locals
  have three := congrArg List.length locals
  rw [List.length_map] at three
  obtain ⟨timeout, target, key, is⟩ := List.length_eq_three.1 three
  rw [is] at locals
  injection locals with _ locals
  injection locals with first locals
  injection locals with second
  refine ⟨timeout, target, key, is, ?_⟩
  rw [(Prod.mk.inj first).2, (Prod.mk.inj second).2]

theorem indexMethod (good : s.Good) {context : ContextId} (valued : ∀ p ∈ e.params, p.2.Valued)
    (params : e.params = [(x, list), (k, keys)]) (apart : x ≠ k) {first second whole : Location}
    (node : e.node = indexNode x k first second whole) (returning : e.isStatement = false) :
    Advances (method context e) s fun r s' => Drafted e s' r.1 r.2 ∧ ∃ a, Picking s' r.1 a := by
  unfold method
  rw [lowerIs, node, returning]
  let P (m : MethodDraft) (_ : List Ty) (y : Expr) (s' : Session) : Prop := y.type.isPrimitive = false ∧
    ∃ timeout target key a, m.locals = [timeout, target, key] ∧ IndexAccess.of? target.type = some a ∧
      y.Writes Refusal s'.Knows (Visible m.frame [] s'.frames) (Picked m.frame target key a)
  have lowered : Advances (lowerBy (Lowering.ofNode (indexNode x k first second whole)) context e) s fun l s' =>
      Drafted e s' l.draft l.types ∧ P l.draft l.types l.value s' := by
    refine lowerByAdvances good valued ?_
    intro m types s₁ _ _ timeout rest good drafted _ _ locals
    obtain ⟨_, target, key, is, _⟩ := drafted.pair params
    obtain ⟨rfl, rfl⟩ := List.cons.inj (locals.symm.trans is)
    have placed : ∀ l ∈ m.locals, l.frame = m.frame ∧ s₁.frames.Has l := by
      intro l inside
      obtain ⟨i, at_⟩ := List.getElem?_of_mem inside
      exact (drafted.placed i l at_).2
    obtain ⟨frame, has⟩ := placed target (by simp [is])
    obtain ⟨keyFrame, hasKey⟩ := placed key (by simp [is])
    have listed : ((e.params.map (·.1)).zip [target, key]).lookup x = some target := by simp [params]
    have keyed : ((e.params.map (·.1)).zip [target, key]).lookup k = some key := by
      have other : (k == x) = false := beq_eq_false_iff_ne.2 apart.symm
      simp [params, List.lookup_cons, other]
    refine (pickAdvances good listed keyed frame keyFrame has hasKey drafted.low first second whole).mono ?_
    intro y s₂ _ _ ⟨reference, a, of, writes⟩
    exact ⟨reference, timeout, target, key, a, is, of, writes⟩
  refine advancesBind lowered ?_
  intro l s' _ good ⟨drafted, reference, timeout, target, key, a, is, of, writes⟩
  refine advancesPure good ⟨{ drafted with }, a, timeout, target, key, is, of, ?_, drafted.roomy writes⟩
  refine (drafted.ready writes false).mono (fun _ h => h) (fun _ h => h) (.refl _) ?_
  intro σ A hs ⟨X, shape, code, regions⟩
  refine ⟨X, shape, ?_, regions⟩
  have boxed : Asm.box l.value.type = [] := by
    cases type : l.value.type with
    | prim p =>
      rw [type] at reference
      contradiction
    | _ => rfl
  rw [code, boxed]
  rfl

/-! ### Invocations -/

variable {c : Scalar} {n i : Int} {v : Value} {addr : Address}

open Machine (Thread Coherent fetch)

theorem pickedDoes {θ : Thread} {w : World} {ls : List Value} {fs : Frames} {X : Asm} {frame : FrameId}
    (picked : Picked frame target key a (Slots.body fs frame) X) (type : key.type = c.type)
    (frames : target.frame = frame ∧ key.frame = frame) (reference : target.type.isPrimitive = false)
    (regular : target.type.Regular knows) (of : IndexAccess.of? target.type = some a) (integer : c.kind.isInteger)
    (admits : c.Admits (some n)) (position : a.position? n = some i) (coherent : Coherent θ.library w)
    (elements : ∀ u ∈ w.heap.list addr, a.itemType.Admits w.heap u) (room : (Slots.body fs frame).next ≤ ls.length)
    (listed : ∀ slot, (Slots.body fs frame).Holds target slot → ls[slot]? = some (.list addr))
    (keyed : ∀ slot, (Slots.body fs frame).Holds key slot → ls[slot]? = some (c.value (some n))) :
    ∃ ls' w', w.Beside w' ∧ θ.Does w X [] ls ((fetch (w.heap.list addr) i).map fun u => .on [u] ls') w' := by
  have narrow : target.type.width = 1 := regular.width reference
  have read : ∀ B, Read key (Slots.body fs frame) B → θ.Yields ls B c (.ok (some n)) :=
    fun _ => Thread.readYields type admits keyed
  unfold Picked at picked
  split at picked
  · next nullable =>
    obtain ⟨held, here, behind, heldType, guarded⟩ := picked
    have heldNarrow : held.type.width = 1 := by
      rw [heldType]
      exact (Ty.withNullWidth _ false).trans narrow
    refine Thread.guardedDoes (v := .list addr) guarded nullable (itemReference regular of) ?_ rfl ?_ ?_
    · rw [heldNarrow]
      decide
    · exact fun _ => Thread.listRuns narrow listed
    · intro slot B holds indexed
      have inside : slot < ls.length := by
        have fits := holds.2
        omega
      rw [type] at indexed
      refine Thread.indexedDoes indexed position coherent elements integer ?_ ?_
      · refine fun _ => Thread.listRuns heldNarrow fun again found => ?_
        have same : again = slot := Option.some.inj (found.1.symm.trans holds.1)
        rw [same, List.getElem?_set_self inside]
      · refine fun _ => Thread.readYields type admits fun there found => ?_
        have before := Slots.bodyRises frames.2 here behind found holds
        rw [List.getElem?_set_ne (Nat.ne_of_gt before)]
        exact keyed there found
  · rw [type] at picked
    obtain ⟨w', beside, does⟩ := Thread.indexedDoes (s := []) picked position coherent elements integer
      (fun _ => Thread.listRuns narrow listed) read
    exact ⟨ls, w', beside, does⟩

theorem pairTaken {knows : String → Prop} (addr : Address) (first : list.Resolves knows target.type)
    (second : keys.Resolves knows key.type)
    (reference : target.type.isPrimitive = false) (takes : keys.Takes v (some n)) :
    ∃ c, keys.scalar? = some c ∧ key.type = c.type ∧ c.Admits (some n) ∧
      (∀ h, ([target.type, key.type].zip [.list addr, v]).mapM (fun p => EntryPoint.coerce h p.1 p.2) =
        .ok [.list addr, c.value (some n)]) ∧
      List.Forall₂ (fun type v => (Machine.push v []).length = max type.width 1) [target.type, key.type]
        [.list addr, c.value (some n)] := by
  obtain ⟨c, scalar, type, admits, coerced⟩ := takes.held second
  have listed : ∀ h, EntryPoint.coerce h target.type (.list addr) = .ok (.list addr) := by
    intro h
    cases is : target.type with
    | prim p =>
      rw [is] at reference
      contradiction
    | _ => rfl
  refine ⟨c, scalar, type, admits, ?_, .cons ?_ (.cons ?_ .nil)⟩
  · intro h
    simp only [List.zip_cons_cons, List.zip_nil_right, List.mapM_cons, List.mapM_nil, listed, coerced h]
    rfl
  · rw [first.regular.width reference]
    rfl
  · rw [type]
    exact Scalar.valueSlots admits

theorem Picking.answers (picking : Picking s m a) (drafted : Drafted e s m types)
    (params : e.params = [(x, list), (k, keys)]) {h : Heap} {verifying : Bool} {method : Method}
    (rendered : m.render s.frames h verifying = .ok method) (integer : ∀ c, keys.scalar? = some c → c.kind.isInteger)
    (takes : keys.Takes v (some n)) (position : a.position? n = some i) {lib : Library} (timeout : Option Nat) {w : World}
    (coherent : Coherent lib w) (elements : ∀ u ∈ w.heap.list addr, a.itemType.Admits w.heap u) :
    ∃ w', w.Beside w' ∧ ∃ N, ∀ fuel, N ≤ fuel →
      EntryPoint.run lib fuel ⟨e.name, method, types, false, timeout⟩ [.list addr, v] w =
        ((fetch (w.heap.list addr) i).mapError .fault, w') := by
  obtain ⟨timer, target, key, locals, of, ready, roomy⟩ := picking
  have answer := ready s.frames (.refl _) h verifying
  rw [rendered] at answer
  obtain ⟨_, ⟨X, picked, rfl, unguarded⟩, lays, _, _⟩ := answer
  obtain ⟨_, _, _, is, typed⟩ := drafted.pair params
  cases locals.symm.trans is
  have resolved := drafted.resolved
  rw [params, typed] at resolved
  cases resolved with | cons listResolves resolved
  cases resolved with | cons keyResolves _
  have reference := ofReference of
  obtain ⟨c, scalar, type, admits, taken, sized⟩ := pairTaken addr listResolves keyResolves reference takes
  rw [← typed] at taken sized
  let start := Machine.Activation.start method (Machine.slotsOf
    (.timeout (EntryPoint.deadline ⟨e.name, method, types, false, timeout⟩ w.heap) :: [.list addr, c.value (some n)]))
  let θ : Thread := ⟨lib, method, 1, unguarded⟩
  have second : m.locals[0 + 1]? = some target := by
    rw [locals]
    rfl
  have third : m.locals[1 + 1]? = some key := by
    rw [locals]
    rfl
  have room : (Slots.body s.frames m.frame).next ≤ start.locals.length := by
    refine Nat.le_trans (roomy s.frames (.refl _) h verifying method rendered) ?_
    change method.maxLocals ≤ (_ ++ List.replicate _ _).length
    rw [List.length_append, List.length_replicate]
    omega
  obtain ⟨ls', w', beside, does⟩ := pickedDoes (θ := θ) picked type
    ⟨(drafted.placed _ _ second).2.1, (drafted.placed _ _ third).2.1⟩ reference listResolves.regular of
    (integer c scalar) admits position coherent elements room
    (fun _ holds => drafted.heldAt (.refl _) sized second rfl holds method)
    (fun _ holds => drafted.heldAt (.refl _) sized third rfl holds method)
  have trailer : m.trailer = [] := by
    unfold MethodDraft.trailer
    rw [drafted.returns]
    rfl
  rw [trailer, List.append_nil, show Asm.box .any = [] from rfl, List.append_nil] at lays
  obtain ⟨p, body, last, _⟩ := Method.spansAppend.1 lays.spans
  have ends : θ.Finishes ⟨0, [], start.locals, w⟩ (fetch (w.heap.list addr) i) w' := by
    have course := does 0 p body
    cases found : fetch (w.heap.list addr) i with
    | ok u =>
      rw [found] at course
      exact course.finishes (Thread.finishesReturn last)
    | error f =>
      rw [found] at course
      exact course.raises
  obtain ⟨N, runs⟩ := ends
  refine ⟨w', beside, N, fun fuel enough => ?_⟩
  have arity : [Value.list addr, v].length = types.length := by
    rw [typed]
    rfl
  rw [EntryPoint.runAccepted (e := ⟨e.name, method, types, false, timeout⟩) arity (taken w.heap),
    ← Nat.sub_add_cancel enough]
  exact runs (fuel - N)

/-! ### Programs -/

/-- An entry point that reads an element of its first parameter by its second. -/
def Indexes (e : Entry) (list keys : ValueType) : Prop :=
  ∃ x k first second whole, x ≠ k ∧ e.params = [(x, list), (k, keys)] ∧ e.node = indexNode x k first second whole ∧
    e.isStatement = false

def Accepts (config : Config) (heap : Heap) (es : List Entry) (e : Entry) : Prop :=
  ∃ before after, es = before ++ e :: after ∧ (((new config heap).addAll before).add e).1 = .ok ()

variable {config : Config} {heap : Heap} {es : List Entry} {p : Program} {w : World} {last : Session}

theorem Accepts.picking (valued : ∀ e ∈ es, EntryValued e) (indexes : Indexes e list keys) (accepts : Accepts config heap es e) :
    let c := (new config heap).addAll es
    ∃ m types a, (⟨e.name, types, false⟩, m) ∈ c.signatures.zip c.unit.methods ∧ Drafted e c.session m types ∧
      Picking c.session m a := by
  intro c
  obtain ⟨before, after, rfl, accepted⟩ := accepts
  obtain ⟨x, k, _, _, _, apart, params, node, returning⟩ := indexes
  have valuedFirst : ∀ x ∈ before, EntryValued x := fun x inside => valued x (List.mem_append_left _ inside)
  have valuedRest : ∀ x ∈ e :: after, EntryValued x := fun x inside => valued x (List.mem_append_right _ inside)
  have first := (compiledSound config heap valuedFirst).1
  have split : c = _ := addAllSplit (new config heap) before after e
  generalize (new config heap).addAll before = c₁ at first split accepted
  obtain ⟨m, types, s', answer, later, pair⟩ := acceptedStands first renderableLasts
    (fun x inside s good => methodRenders (valuedRest x inside) good) accepted
  have made : Advances (method c₁.context e) _ _ :=
    indexMethod first.session (valuedRest e List.mem_cons_self).1 params apart node returning
  obtain ⟨⟨drafted, a, picking⟩, _⟩ := Ends.ok made answer
  rw [← split, returning] at pair
  rw [← split] at later
  exact ⟨m, types, a, pair, drafted.later later, picking.later later⟩

theorem Accepts.answers (valued : ∀ e ∈ es, EntryValued e) (built : ((new config heap).addAll es).build = (.ok (p, w), last))
    (indexes : Indexes e list keys) (accepts : Accepts config heap es e)
    (integer : ∀ c, keys.scalar? = some c → c.kind.isInteger) :
    ∃ point type a, p.entry? e.name = some point ∧ point.params.head? = some type ∧ IndexAccess.of? type = some a ∧
      ∀ (w : World) addr v n i, Coherent p.library w → keys.Takes v (some n) → a.position? n = some i →
        (∀ u ∈ w.heap.list addr, a.itemType.Admits w.heap u) → ∃ w', w.Beside w' ∧ ∃ N, ∀ fuel, N ≤ fuel →
          p.run fuel e.name [.list addr, v] w = ((fetch (w.heap.list addr) i).mapError .fault, w') := by
  have sound := (compiledSound config heap valued).1
  obtain ⟨m, types, a, pair, drafted, picking⟩ := accepts.picking valued indexes
  obtain ⟨x, k, _, _, _, _, params, _, _⟩ := indexes
  have ends := buildEnds sound (fun _ h => h) fun _ _ _ ready => ready
  rw [built] at ends
  obtain ⟨_, builds⟩ := ends
  obtain ⟨method, rendered, there⟩ := builds.entries _ _ pair
  obtain ⟨_, target, key, locals, of, _, _⟩ := id picking
  obtain ⟨_, _, _, is, typed⟩ := drafted.pair params
  cases locals.symm.trans is
  refine ⟨_, target.type, a, there, by rw [typed]; rfl, of, ?_⟩
  intro w addr v n i coherent takes position elements
  obtain ⟨w', beside, N, runs⟩ := picking.answers drafted params rendered integer takes position _ coherent elements
  refine ⟨w', beside, N, fun fuel enough => ?_⟩
  unfold Program.run
  rw [there]
  exact runs fuel enough

/-- In a program that was built of any entry points that do not mention void: an element of a list by an integer key, once
where the type of the list is known and once where it is any. The one is the element at the lower 32 bits of the key, the
other that at the key itself, or each the fault of a position that is not in the list. They are the same for keys of
32 bits; for no other is there an element where the type is any, if the list is not longer than 32 bits tell. -/
theorem knownListsCutKeys (config : Config) (heap : Heap) {es : List Entry} (valued : ∀ e ∈ es, EntryValued e) {p : Program}
    {w : World} {last : Session} (built : ((new config heap).addAll es).build = (.ok (p, w), last)) {known dynamic : Entry}
    {list anything keys : ValueType} (first : Indexes known list keys) (second : Indexes dynamic anything keys)
    (integer : ∀ c, keys.scalar? = some c → c.kind.isInteger) (accepted : Accepts config heap es known)
    (accepted' : Accepts config heap es dynamic) :
    ∃ point point', p.entry? known.name = some point ∧ p.entry? dynamic.name = some point' ∧ ∀ elem,
      point.params.head?.bind IndexAccess.of? = some (.list elem) → point'.params.head?.bind IndexAccess.of? = some .dynamic →
        ∀ (w : World) addr v n, Coherent p.library w → keys.Takes v (some n) →
          (∀ u ∈ w.heap.list addr, elem.orNull.Admits w.heap u) →
            let items := w.heap.list addr
            ∃ w₁ w₂, w.Beside w₁ ∧ w.Beside w₂ ∧
              (∃ N, ∀ fuel, N ≤ fuel →
                p.run fuel known.name [.list addr, v] w = ((fetch items (Prim.int32.wrap n)).mapError .fault, w₁) ∧
                p.run fuel dynamic.name [.list addr, v] w = ((fetch items n).mapError .fault, w₂)) ∧
              (Prim.int32.Holds n → fetch items (Prim.int32.wrap n) = fetch items n) ∧
              (¬ Prim.int32.Holds n → items.size ≤ 2 ^ 31 → fetch items n = .error (.indexOutOfBounds n items.size)) := by
  obtain ⟨point, type, a, there, head, of, answers⟩ := accepted.answers valued built first integer
  obtain ⟨point', type', a', there', head', of', answers'⟩ := accepted'.answers valued built second integer
  refine ⟨point, point', there, there', ?_⟩
  intro elem listed open_ w addr v n coherent takes elements items
  rw [head] at listed
  rw [head'] at open_
  cases of.symm.trans listed
  cases of'.symm.trans open_
  have objects : ∀ u ∈ w.heap.list addr, Ty.any.Admits w.heap u := fun u inside => (elements u inside).any
  obtain ⟨w₁, beside₁, N₁, runs₁⟩ := answers w addr v n _ coherent takes rfl elements
  obtain ⟨w₂, beside₂, N₂, runs₂⟩ := answers' w addr v n _ coherent takes rfl objects
  refine ⟨w₁, w₂, beside₁, beside₂, ⟨max N₁ N₂, ?_⟩, ?_, ?_⟩
  · exact fun fuel enough => ⟨runs₁ fuel (by omega), runs₂ fuel (by omega)⟩
  · intro holds
    rw [Prim.wrapSame rfl holds]
  · intro wide short
    unfold fetch Machine.bounds
    have outside : ¬ (0 ≤ n ∧ n < items.size) := by
      unfold Prim.Holds at wide
      omega
    rw [if_neg outside]
    rfl

def oneLetter : Heap := (Heap.empty.newList #[.string "a"]).2

def elementEntry (name : String) (list : ValueType) : Entry :=
  ⟨name, [("xs", list), ("k", .scalar .int64)], indexNode "xs" "k" .unknown .unknown .unknown, false⟩

theorem elementIndexes (name : String) (list : ValueType) : Indexes (elementEntry name list) list (.scalar .int64) :=
  ⟨"xs", "k", .unknown, .unknown, .unknown, by decide, rfl, rfl, rfl⟩

/-- A key of more than 32 bits finds the first element where the list is known to be one, and none where it is not. -/
theorem wideKeyCut :
    let es := [elementEntry "known" (.array .string), elementEntry "open" .any]
    ∃ p w s, ((new .default oneLetter).addAll es).build = (.ok (p, w), s) ∧
      ∃ v : World, Coherent p.library v ∧ v.heap = oneLetter ∧ ∃ w₁ w₂ N, ∀ fuel, N ≤ fuel →
        p.run fuel "known" [.list 0, .long (.ofInt (2 ^ 32))] v = (.ok (.string "a"), w₁) ∧
        p.run fuel "open" [.list 0, .long (.ofInt (2 ^ 32))] v = (.error (.fault (.indexOutOfBounds (2 ^ 32) 1)), w₂) := by
  intro es
  have succeeds : ((new .default oneLetter).addAll es).build.1.isOk = true := by decide +kernel
  have signatures : ((new .default oneLetter).addAll es).signatures.map (fun sig => (sig.name, sig.params)) =
      [("known", [.carrier false .list (.atom false .string), .prim .int64]), ("open", [.any, .prim .int64])] := by
    decide +kernel
  have accepted : ((new .default oneLetter).add (elementEntry "known" (.array .string))).1 = .ok () := by decide +kernel
  have accepted' : (((new .default oneLetter).addAll [elementEntry "known" (.array .string)]).add
      (elementEntry "open" .any)).1 = .ok () := by decide +kernel
  have valued : ∀ e ∈ es, EntryValued e := by
    intro e inside
    simp only [es, List.mem_cons, List.not_mem_nil, or_false] at inside
    rcases inside with rfl | rfl <;>
      simp [EntryValued, elementEntry, indexNode, Node.Valued, Arg.ValuedAll, Arg.Valued, ValueType.Valued]
  have verified := builtCodeVerifies .default rfl oneLetter _ valued
  rcases answer : ((new .default oneLetter).addAll es).build with ⟨err | ⟨p, w⟩, s⟩
  · rw [answer] at succeeds
    contradiction
  simp only [answer] at verified
  have integer : ∀ c, (ValueType.scalar .int64).scalar? = some c → c.kind.isInteger := by
    rintro _ ⟨⟩
    rfl
  obtain ⟨point, point', there, there', answers⟩ := knownListsCutKeys .default oneLetter valued answer
    (elementIndexes "known" (.array .string)) (elementIndexes "open" .any) integer
    ⟨[], [elementEntry "open" .any], rfl, accepted⟩ ⟨[elementEntry "known" (.array .string)], [], rfl, accepted'⟩
  have typed : ∀ name params q, (name, params) ∈ [("known", [Ty.carrier false .list (.atom false .string), .prim .int64]),
      ("open", [.any, .prim .int64])] → p.entry? name = some q → q.params = params := by
    intro name params q inside found
    rw [← signatures] at inside
    obtain ⟨sig, member, is⟩ := List.mem_map.1 inside
    obtain ⟨rfl, rfl⟩ := Prod.mk.inj is
    obtain ⟨e, entry, _, _, same, _⟩ := verified.2.2.1 sig member
    cases entry.symm.trans found
    exact same
  have list := typed "known" _ point List.mem_cons_self there
  have any := typed "open" _ point' (List.mem_cons_of_mem _ List.mem_cons_self) there'
  let v : World := { w with heap := oneLetter }.forgetful
  have strings : ∀ u ∈ v.heap.list 0, (Ty.atom true .string).Admits v.heap u := by
    intro u inside
    have only : u = .string "a" := List.mem_singleton.1 (Array.mem_def.1 inside)
    refine only ▸ .inr ⟨rfl, fun cls is => ?_⟩
    cases is
    change oneLetter.isInstance (.string "a") "String" = true
    decide +kernel
  obtain ⟨w₁, w₂, _, _, ⟨N, runs⟩, _⟩ := answers (.atom false .string) (by rw [list]; rfl) (by rw [any]; rfl) v 0
    (.long (.ofInt (2 ^ 32))) (2 ^ 32) (.forgetful _ _) (.raw (by decide)) strings
  exact ⟨p, w, s, rfl, v, .forgetful _ _, rfl, w₁, w₂, N, runs⟩

end Compiler

end QueryMachine
