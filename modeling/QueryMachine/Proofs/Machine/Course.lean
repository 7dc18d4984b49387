import QueryMachine.Proofs.Code.Casting
import QueryMachine.Proofs.Machine.Scene
import QueryMachine.Proofs.Unit.Method

/-! Courses of control through the code of a method: what a run comes to from a moment on, whatever fuel is left by
then. -/
namespace QueryMachine

def Method.Spans (m : Method) : Nat → Asm → Nat → Prop
  | p, [], q => p = q
  | p, .op o :: X, q => m.ops[p]? = some o ∧ m.Spans (p + 1) X q
  | p, .mark l :: X, q => m.position l = p ∧ m.Spans p X q

namespace Method

variable {m : Method}

@[simp] theorem spansNil {p q : Nat} : m.Spans p [] q ↔ p = q := Iff.rfl

@[simp] theorem spansOp {p q : Nat} {o : Op} {X : Asm} :
    m.Spans p (.op o :: X) q ↔ m.ops[p]? = some o ∧ m.Spans (p + 1) X q := Iff.rfl

@[simp] theorem spansMark {p q : Nat} {l : Label} {X : Asm} :
    m.Spans p (.mark l :: X) q ↔ m.position l = p ∧ m.Spans p X q := Iff.rfl

theorem spansAppend {p r : Nat} {X Y : Asm} : m.Spans p (X ++ Y) r ↔ ∃ q, m.Spans p X q ∧ m.Spans q Y r := by
  induction X generalizing p with
  | nil => simp
  | cons item X ih =>
    cases item with
    | op o => simp only [List.cons_append, spansOp, ih, and_assoc, exists_and_left]
    | mark l => simp only [List.cons_append, spansMark, ih, and_assoc, exists_and_left]

theorem Spans.size {p q : Nat} {X : Asm} (spans : m.Spans p X q) : q = p + X.ops.length := by
  induction X generalizing p with
  | nil => exact spans.symm
  | cons item X ih =>
    cases item with
    | op o => rw [ih spans.2, Asm.opsOp, List.length_cons, Nat.add_assoc, Nat.add_comm 1]
    | mark l => exact ih spans.2

theorem Spans.only {p q pc : Nat} {X : Asm} {o : Op} (spans : m.Spans p X q) (low : p ≤ pc) (high : pc < q)
    (here : m.ops[pc]? = some o) : o ∈ X.ops := by
  induction X generalizing p with
  | nil => exact absurd (Nat.lt_of_le_of_lt low high) (spans ▸ Nat.lt_irrefl p)
  | cons item X ih =>
    cases item with
    | op o' =>
      rcases Nat.eq_or_lt_of_le low with rfl | later
      · cases spans.1.symm.trans here
        exact List.mem_cons_self
      · exact List.mem_cons_of_mem _ (ih spans.2 later)
    | mark l => exact ih spans.2 low

theorem spansOf {X : Asm} {p : Nat} (ops : ∀ i o, X.ops[i]? = some o → m.ops[p + i]? = some o)
    (places : ∀ l q, (l, q) ∈ X.marks p → m.position l = q) : m.Spans p X (p + X.ops.length) := by
  induction X generalizing p with
  | nil => rfl
  | cons item X ih =>
    cases item with
    | op o =>
      refine ⟨ops 0 o rfl, ?_⟩
      have tail := ih (p := p + 1) (fun i o at_ => by
        rw [Nat.add_assoc, Nat.add_comm 1]
        exact ops (i + 1) o at_) places
      rwa [Nat.add_assoc, Nat.add_comm 1] at tail
    | mark l => exact ⟨places l p List.mem_cons_self, ih ops fun l q marked => places l q (List.mem_cons_of_mem _ marked)⟩

theorem Lays.spans {A : Asm} (lays : m.Lays A) : m.Spans 0 A A.ops.length := by
  have whole := spansOf (p := 0) ?_ lays.places
  · rwa [Nat.zero_add] at whole
  · intro i o at_
    rw [Nat.zero_add, ← Array.getElem?_toList, lays.ops]
    exact at_

end Method

namespace Machine

/-- A method without protected regions that is running at a depth of nested calls. -/
structure Thread where
  library : Library
  method : Method
  depth : Nat
  unguarded : method.handlers = []

namespace Thread

variable (θ : Thread)

def scene : Scene := ⟨θ.library, θ.method, θ.depth⟩

def rest (a : Moment) (fuel : Nat) : Except Stop Value × World :=
  exec θ.library fuel θ.depth ⟨θ.method, a.pc, a.stack, a.locals⟩ a.world

def Course (a : Moment) : Except (Fault × World) Moment → Prop
  | .ok b => ∃ k, ∀ fuel, θ.rest a (fuel + k) = θ.rest b fuel
  | .error (f, w) => ∃ k, ∀ fuel, θ.rest a (fuel + k) = (.error (.fault f), w)

variable {θ} {a b : Moment} {r : Except (Fault × World) Moment} {p : Nat} {s : Stack} {ls : List Value} {w : World} {o : Op}

theorem Course.refl (a : Moment) : θ.Course a (.ok a) := ⟨0, fun _ => rfl⟩

theorem Course.trans (first : θ.Course a (.ok b)) (second : θ.Course b r) : θ.Course a r := by
  obtain ⟨k, comes⟩ := first
  cases r with
  | ok c =>
    obtain ⟨n, goes⟩ := second
    refine ⟨n + k, fun fuel => ?_⟩
    rw [← Nat.add_assoc, comes, goes]
  | error e =>
    obtain ⟨n, goes⟩ := second
    refine ⟨n + k, fun fuel => ?_⟩
    rw [← Nat.add_assoc, comes, goes]

def turn (θ : Thread) (fuel : Nat) (o : Op) (a : Moment) : Except Stop Next × World :=
  step θ.library (enter (exec θ.library fuel) θ.depth) (continueWith θ.library (exec θ.library fuel)) o
    ⟨θ.method, a.pc, a.stack, a.locals⟩ a.world

theorem courseFault (here : θ.method.ops[a.pc]? = some o) {f : Fault} {w' : World}
    (goes : ∀ fuel, θ.turn fuel o a = (.error (.fault f), w')) : θ.Course a (.error (f, w')) := by
  refine ⟨1, fun fuel => ?_⟩
  have step := goes fuel
  have unguarded : θ.method.handlerFor? a.pc f = none := by
    unfold Method.handlerFor?
    rw [θ.unguarded]
    rfl
  unfold turn at step
  unfold rest
  rw [exec]
  simp only [here, step, unguarded]

theorem turnCore {r : Except Fault Next} (is : core a.world.heap θ.method o a.stack a.locals = some r) (fuel : Nat) :
    θ.turn fuel o a = Run.lift r a.world := Scene.turnCore (θ := θ.scene) is fuel

theorem next (here : θ.method.ops[p]? = some o) {s' : Stack} {ls' : List Value}
    (is : core w.heap θ.method o s ls = some (.ok (.next s' ls'))) :
    θ.Course ⟨p, s, ls, w⟩ (.ok ⟨p + 1, s', ls', w⟩) := Scene.next (θ := θ.scene) here is

theorem jumps (here : θ.method.ops[p]? = some o) {q : Nat} {s' : Stack} {ls' : List Value}
    (is : core w.heap θ.method o s ls = some (.ok (.jump q s' ls'))) : θ.Course ⟨p, s, ls, w⟩ (.ok ⟨q, s', ls', w⟩) :=
  Scene.jumps (θ := θ.scene) here is

theorem faults (here : θ.method.ops[p]? = some o) {f : Fault}
    (is : core w.heap θ.method o s ls = some (.error f)) : θ.Course ⟨p, s, ls, w⟩ (.error (f, w)) :=
  courseFault (a := ⟨p, s, ls, w⟩) here fun fuel => turnCore (a := ⟨p, s, ls, w⟩) is fuel

theorem calls {n : Native} (here : θ.method.ops[p]? = some (.native n)) {s' : Stack}
    (is : readOnly w.heap n s = some (.ok s')) : θ.Course ⟨p, s, ls, w⟩ (.ok ⟨p + 1, s', ls, w⟩) :=
  Scene.calls (θ := θ.scene) here is

theorem callsFault {n : Native} (here : θ.method.ops[p]? = some (.native n)) {f : Fault}
    (is : readOnly w.heap n s = some (.error f)) : θ.Course ⟨p, s, ls, w⟩ (.error (f, w)) := by
  refine courseFault (a := ⟨p, s, ls, w⟩) here fun fuel => ?_
  have called : ∀ apply, native apply n s w = (.error (.fault f), w) := by
    intro apply
    have read : Run.heap w = (.ok w.heap, w) := rfl
    unfold native
    rw [Run.bindOk read, is]
    rfl
  change ((do return Next.next (← native (continueWith θ.library (exec θ.library fuel)) n s) ls : Run Next)) w = _
  rw [Run.bindError (called _)]

/-! ### What a run ends with -/

variable {v : Value} {q : Except Fault Value}

def Finishes (θ : Thread) (a : Moment) (q : Except Fault Value) (w : World) : Prop :=
  ∃ k, ∀ fuel, θ.rest a (fuel + k) = (q.mapError .fault, w)

theorem Course.finishes (course : θ.Course a (.ok b)) (rest : θ.Finishes b q w) : θ.Finishes a q w := by
  obtain ⟨k, comes⟩ := course
  obtain ⟨n, ends⟩ := rest
  refine ⟨n + k, fun fuel => ?_⟩
  rw [← Nat.add_assoc, comes, ends]

theorem Course.raises {f : Fault} (course : θ.Course a (.error (f, w))) : θ.Finishes a (.error f) w := course

theorem finishesReturn (here : θ.method.ops[p]? = some (.ret 1)) : θ.Finishes ⟨p, v :: s, ls, w⟩ (.ok v) w := by
  refine ⟨1, fun fuel => ?_⟩
  unfold rest
  rw [exec]
  simp only [here]
  rfl

theorem finishesVoid (here : θ.method.ops[p]? = some (.ret 0)) : θ.Finishes ⟨p, s, ls, w⟩ (.ok .null) w := by
  refine ⟨1, fun fuel => ?_⟩
  unfold rest
  rw [exec]
  simp only [here]
  rfl

theorem finishesNext (here : θ.method.ops[a.pc]? = some o) {s' : Stack} {ls' : List Value} {w' w'' : World}
    (goes : ∃ k, ∀ fuel, θ.turn (fuel + k) o a = (.ok (.next s' ls'), w'))
    (after : θ.Finishes ⟨a.pc + 1, s', ls', w'⟩ q w'') : θ.Finishes a q w'' := by
  obtain ⟨k, step⟩ := goes
  obtain ⟨n, ends⟩ := after
  refine ⟨n + k + 1, fun fuel => ?_⟩
  have step := step (fuel + n)
  have ends := ends (fuel + k)
  unfold turn at step
  unfold rest at ends ⊢
  rw [← Nat.add_assoc, ← Nat.add_assoc, exec]
  simp only [here, step]
  rwa [Nat.add_right_comm]

theorem finishesFault (here : θ.method.ops[a.pc]? = some o) {f : Fault} {w' : World}
    (goes : ∃ k, ∀ fuel, θ.turn (fuel + k) o a = (.error (.fault f), w')) : θ.Finishes a (.error f) w' := by
  obtain ⟨k, step⟩ := goes
  refine ⟨k + 1, fun fuel => ?_⟩
  have step := step fuel
  have unguarded : θ.method.handlerFor? a.pc f = none := by
    unfold Method.handlerFor?
    rw [θ.unguarded]
    rfl
  unfold turn at step
  unfold rest
  rw [← Nat.add_assoc, exec]
  simp only [here, step, unguarded]
  rfl

theorem turnOuter (other : core a.world.heap θ.method o a.stack a.locals = none) (fuel : Nat) :
    θ.turn fuel o a = (outer θ.library (enter (exec θ.library fuel) θ.depth) (continueWith θ.library (exec θ.library fuel))
      o a.stack >>= fun s => return Next.next s a.locals : Run Next) a.world := Scene.turnOuter (θ := θ.scene) other fuel

theorem reads {f : FieldRef} {o : Address} (here : θ.method.ops[p]? = some (.getField f))
    (is : (w.heap.object o).get? f.name = some v) :
    θ.Course ⟨p, .object o :: s, ls, w⟩ (.ok ⟨p + 1, push v s, ls, w⟩) := by
  refine Scene.outers (θ := θ.scene) here rfl ?_
  intro call apply
  change ((Run.orFault (.propertyNotFound f.name) ((w.heap.object o).get? f.name)) >>= fun v => return push v s :
    Run Stack) w = _
  rw [is]
  rfl

end Thread

/-! ### Pieces of code -/

inductive Performs : List Op → Stack → Except Fault Stack → Prop
  | done {s : Stack} : Performs [] s (.ok s)
  | next {o : Op} {os : List Op} {s t : Stack} {r : Except Fault Stack} :
    (∀ h m ls, core h m o s ls = some (.ok (.next t ls))) → Performs os t r → Performs (o :: os) s r
  | fault {o : Op} {os : List Op} {s : Stack} {f : Fault} :
    (∀ h m ls, core h m o s ls = some (.error f)) → Performs (o :: os) s (.error f)

theorem Performs.append {os os' : List Op} {s s' : Stack} {r : Except Fault Stack} (first : Performs os s (.ok s'))
    (second : Performs os' s' r) : Performs (os ++ os') s r := by
  generalize is : Except.ok s' = e at first
  induction first with
  | done =>
    cases is
    exact second
  | next takes _ ih => exact .next takes (ih is)
  | fault _ => contradiction

inductive Leap where
  | on (stack : Stack) (locals : List Value)
  | off (label : Label) (stack : Stack) (locals : List Value)

def Leap.moment (m : Method) (q : Nat) (w : World) : Leap → Moment
  | on s ls => ⟨q, s, ls, w⟩
  | off l s ls => ⟨m.position l, s, ls, w⟩

namespace Thread

variable {θ : Thread} {w : World} {X Y Z : Asm} {s s' : Stack} {ls ls' : List Value} {f : Fault} {l : Label} {o : Op}
  {r : Except Fault Leap}

def Does (θ : Thread) (w : World) (X : Asm) (s : Stack) (ls : List Value) (r : Except Fault Leap) (w' : World) : Prop :=
  ∀ p q, θ.method.Spans p X q → θ.Course ⟨p, s, ls, w⟩ (match r with
    | .ok leap => .ok (leap.moment θ.method q w')
    | .error f => .error (f, w'))

theorem doesAppend {w' w'' : World} (first : θ.Does w X s ls (.ok (.on s' ls')) w') (second : θ.Does w' Y s' ls' r w'') :
    θ.Does w (X ++ Y) s ls r w'' := by
  intro p q spans
  obtain ⟨mid, before, after⟩ := Method.spansAppend.1 spans
  exact (first p mid before).trans (second mid q after)

theorem doesOff {w' : World} (first : θ.Does w X s ls (.ok (.off l s' ls')) w') (Y : Asm) :
    θ.Does w (X ++ Y) s ls (.ok (.off l s' ls')) w' := by
  intro p q spans
  obtain ⟨mid, before, _⟩ := Method.spansAppend.1 spans
  exact first p mid before

theorem doesError {w' : World} (first : θ.Does w X s ls (.error f) w') (Y : Asm) : θ.Does w (X ++ Y) s ls (.error f) w' := by
  intro p q spans
  obtain ⟨mid, before, _⟩ := Method.spansAppend.1 spans
  exact first p mid before

theorem doesLand {w' w'' : World} (first : θ.Does w X s ls (.ok (.off l s' ls')) w') (second : θ.Does w' Z s' ls' r w'') :
    θ.Does w (X ++ Y ++ .mark l :: Z) s ls r w'' := by
  intro p q spans
  obtain ⟨there, before, at_, rest⟩ := Method.spansAppend.1 spans
  obtain ⟨mid, here, _⟩ := Method.spansAppend.1 before
  refine (first p mid here).trans ?_
  rw [Leap.moment, at_]
  exact second there q rest

def Runs (θ : Thread) (w : World) (X : Asm) (s : Stack) (ls : List Value) (r : Except Fault Leap) : Prop :=
  ∀ p q, θ.method.Spans p X q → θ.Course ⟨p, s, ls, w⟩ (match r with
    | .ok leap => .ok (leap.moment θ.method q w)
    | .error f => .error (f, w))

theorem Runs.does (runs : θ.Runs w X s ls r) : θ.Does w X s ls r w := runs

theorem runsNil : θ.Runs w [] s ls (.ok (.on s ls)) := by
  rintro p _ rfl
  exact Course.refl _

theorem runsMark (rest : θ.Runs w X s ls r) : θ.Runs w (.mark l :: X) s ls r := fun p q spans => rest p q spans.2

theorem runsOp {t : Stack} (is : core w.heap θ.method o s ls = some (.ok (.next t ls'))) (rest : θ.Runs w X t ls' r) :
    θ.Runs w (.op o :: X) s ls r := by
  intro p q spans
  exact (next spans.1 is).trans (rest (p + 1) q spans.2)

theorem runsLeave (is : core w.heap θ.method o s ls = some (.ok (.jump (θ.method.position l) s' ls'))) :
    θ.Runs w (.op o :: X) s ls (.ok (.off l s' ls')) := fun _ _ spans => jumps spans.1 is

theorem runsJump : θ.Runs w (.op (.jump l) :: X) s ls (.ok (.off l s ls)) := runsLeave rfl

theorem runsFault (is : core w.heap θ.method o s ls = some (.error f)) : θ.Runs w (.op o :: X) s ls (.error f) :=
  fun _ _ spans => faults spans.1 is

theorem runsAppend (first : θ.Runs w X s ls (.ok (.on s' ls'))) (second : θ.Runs w Y s' ls' r) :
    θ.Runs w (X ++ Y) s ls r := doesAppend first.does second.does

theorem runsOff (first : θ.Runs w X s ls (.ok (.off l s' ls'))) (Y : Asm) : θ.Runs w (X ++ Y) s ls (.ok (.off l s' ls')) :=
  doesOff first.does Y

theorem runsError (first : θ.Runs w X s ls (.error f)) (Y : Asm) : θ.Runs w (X ++ Y) s ls (.error f) :=
  doesError first.does Y

theorem runsLand (first : θ.Runs w X s ls (.ok (.off l s' ls'))) (second : θ.Runs w Z s' ls' r) :
    θ.Runs w (X ++ Y ++ .mark l :: Z) s ls r := doesLand first.does second.does

theorem runsStraight {os : List Op} {t : Except Fault Stack} (carries : Performs os s t) :
    θ.Runs w (Asm.straight os) s ls (t.map (.on · ls)) := by
  induction carries with
  | done => exact runsNil
  | next takes _ ih => exact runsOp (takes _ _ _) ih
  | fault takes => exact runsFault (takes _ _ _)

end Thread

end Machine

end QueryMachine
