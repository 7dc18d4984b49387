import QueryMachine.Proofs.Machine.StackEffect
import QueryMachine.Proofs.Machine.Trace

/-! What acceptance by the verifier says about runs: the stack is as deep as was recorded for each position, and
control stays inside the code. -/
namespace QueryMachine

namespace Method

def candidate (m : Method) : Verify.Candidate :=
  ⟨m.ops, m.position, m.handlers, m.maxLocals, m.ref.returns.width⟩

def verdict (m : Method) : Except Rejection Nat :=
  verify m.ops (m.labels.toList.map some) m.handlers m.maxLocals m.ref.returns.width

theorem verdictSettled {m : Method} {n : Nat} (ok : m.verdict = .ok n) :
    ∃ found, Verify.settled m.candidate = .ok found ∧ found.maxStack = n := by
  have positions : (fun l => (((m.labels.toList.map some)[l]?).getD none).getD 0) = m.position := by
    funext l
    simp only [Method.position, List.getElem?_map, Array.getElem?_toList, Array.getD_eq_getD_getElem?]
    cases m.labels[l]? <;> rfl
  unfold verdict verify at ok
  split at ok
  · contradiction
  · split at ok
    · contradiction
    · rw [positions] at ok
      obtain ⟨found, settled, same⟩ := exceptBind ok
      cases same
      exact ⟨found, settled, rfl⟩

end Method

def Library.Accepted (lib : Library) : Prop := ∀ m, lib.Has m → ∃ n, m.verdict = .ok n

namespace Machine

structure InBounds (found : Verify.Progress) (a : Activation) : Prop where
  inside : a.pc < a.method.ops.size
  depth : found.depthAt a.pc = some a.stack.length
  bounded : a.stack.length ≤ found.maxStack
  locals : ∀ op first last, a.method.ops[a.pc]? = some op → Verify.slots? op = some (first, last) →
    first < a.locals.length ∧ last < a.locals.length
  returns : ∀ n, a.method.ops[a.pc]? = some (.ret n) → a.stack.length = n
  handlers : ∀ h ∈ a.method.handlers, found.depthAt (a.method.position h.target) = some 1

namespace Point

/-- The depths that the verifier recorded for the method are right at this point. -/
def Held (p : Point) : Prop :=
  ∃ found, Verify.settled p.activation.method.candidate = .ok found ∧
    p.activation.method.verdict = .ok found.maxStack ∧ InBounds found p.activation

/-- What the operation pushes is as wide as its effect declares. -/
def Measured (lib : Library) (p : Point) : Prop :=
  ∀ fuel op v ls w, p.fuel = fuel + 1 → p.op? = some op → isMeasured op = true →
    turn lib fuel p.depth op p.activation p.world =
      (.ok (.next (push v (p.activation.stack.drop op.effect.1)) ls), w) → v.width = op.effect.2

def StoresValues (p : Point) : Prop := ∀ op, p.op? = some op → StoresValue op

def Reraises (p : Point) : Prop :=
  ∃ op f, p.op? = some op ∧ Broken f ∧ Carries p.world.heap f op p.activation.stack

end Point

structure Kept (lib : Library) (p : Point) : Prop where
  has : lib.Has p.activation.method
  depth : ∀ found, Verify.settled p.activation.method.candidate = .ok found →
    found.depthAt p.activation.pc = some p.activation.stack.length
  locals : p.activation.method.maxLocals ≤ p.activation.locals.length

theorem startKept {lib : Library} {m : Method} (has : lib.Has m) (fuel depth : Nat) (args : List Value)
    (w : World) : Kept lib ⟨fuel, depth, .start m args, w⟩ := by
  refine ⟨has, ?_, ?_⟩
  · intro found settled
    exact (Verify.settledConsistent settled).1.start
  · simp only [Activation.start, List.length_append, List.length_replicate]
    omega

theorem checkedOp {t : Verify.Candidate} {pc depth : Nat} {op : Op} (ok : Verify.checkOp t pc depth op = .ok ()) :
    op.effect.1 ≤ depth ∧ (∀ first last, Verify.slots? op = some (first, last) → last < t.maxLocals) ∧
      ∀ n, op = .ret n → depth = n := by
  unfold Verify.checkOp at ok
  split at ok
  · contradiction
  · next enough =>
    refine ⟨by omega, ?_, ?_⟩
    · intro first last slots
      simp only [slots] at ok
      split at ok
      · contradiction
      · omega
    · rintro n rfl
      simp only [Verify.slots?] at ok
      split at ok
      · next same => exact same.1
      · contradiction

section Turns

variable {lib : Library} (accepted : lib.Accepted) {fuel depth : Nat} {a : Activation} {w : World}
include accepted

theorem Kept.operation {p : Point} (kept : Kept lib p) :
    ∃ found op, Verify.settled p.activation.method.candidate = .ok found ∧ p.op? = some op ∧
      Verify.checkOp p.activation.method.candidate p.activation.pc p.activation.stack.length op = .ok () ∧
      (∀ l ∈ op.targets, found.depthAt (p.activation.method.position l) =
        some (Verify.after op p.activation.stack.length)) ∧
      (op.fallsThrough = true → found.depthAt (p.activation.pc + 1) =
        some (Verify.after op p.activation.stack.length)) := by
  obtain ⟨n, ok⟩ := accepted p.activation.method kept.has
  obtain ⟨found, settled, _⟩ := Method.verdictSettled ok
  obtain ⟨op, at_, checked, targets, falls⟩ :=
    (Verify.settledConsistent settled).1.obeys _ _ (kept.depth found settled)
  exact ⟨found, op, settled, at_, checked, targets, falls⟩

theorem Kept.held {p : Point} (kept : Kept lib p) : p.Held := by
  obtain ⟨n, ok⟩ := accepted p.activation.method kept.has
  obtain ⟨found, settled, highest⟩ := Method.verdictSettled ok
  obtain ⟨consistent, bounds⟩ := Verify.settledConsistent settled
  obtain ⟨op, at_, checked, _⟩ := consistent.obeys _ _ (kept.depth found settled)
  obtain ⟨_, slots, returns⟩ := checkedOp checked
  refine ⟨found, settled, highest ▸ ok, (Array.getElem?_eq_some_iff.1 at_).1, kept.depth found settled,
    (bounds _ _ (kept.depth found settled)).1, ?_, ?_, consistent.handler⟩
  · intro op' first last here touched
    cases Option.some.inj (at_.symm.trans here)
    have low := slots first last touched
    have high := kept.locals
    have ordered : first ≤ last := by
      cases op <;> simp only [Verify.slots?, Option.some.injEq, Prod.mk.injEq, reduceCtorEq] at touched <;> omega
    change last < p.activation.method.maxLocals at low
    exact ⟨by omega, by omega⟩
  · intro n here
    exact returns n (Option.some.inj (at_.symm.trans here))

theorem Kept.follow {p q : Point} (kept : Kept lib p) (measured : p.Measured lib) (stores : p.StoresValues)
    (follows : Follows lib p q) : Kept lib q := by
  obtain ⟨found, op, settled, here, checked, targets, falls⟩ := kept.operation accepted
  have unique : ∀ found', Verify.settled p.activation.method.candidate = .ok found' → found' = found :=
    fun _ other => Except.ok.inj (other.symm.trans settled)
  have moves : ∀ {fuel depth : Nat}, (turn lib fuel depth op p.activation).Ends p.world
      (fun next _ => Moves p.activation.method op p.activation.stack p.activation.locals next)
      (fun _ _ => True) := by
    intro fuel depth
    have quiet : Quiet (fun _ => True) (enter (exec lib fuel) depth) := by
      intro m args w
      unfold Run.Ends
      split <;> simp
    exact (stepSafe quiet (checkedOp checked).1 (stores op here)).mono (fun _ _ => id) (fun _ _ _ => trivial)
  cases follows with
  | @next fuel depth a w op' s ls w' at_ ok =>
    cases Option.some.inj (here.symm.trans at_)
    obtain ⟨falling, fits, length⟩ := moves.value ok
    have deep : s.length = Verify.after op a.stack.length := by
      rcases fits with exactly | ⟨wide, v, rfl⟩
      · exact exactly
      · have width := measured fuel op v ls w' rfl here wide ok
        rw [pushLength, width, List.length_drop]
        rfl
    refine ⟨kept.has, ?_, ?_⟩
    · intro found' other
      rw [unique found' other, deep]
      exact falls falling
    · rw [length]
      exact kept.locals
  | @jump fuel depth a w op' pc s ls w' at_ ok =>
    cases Option.some.inj (here.symm.trans at_)
    obtain ⟨⟨l, target, rfl⟩, deep, length⟩ := moves.value ok
    refine ⟨kept.has, ?_, ?_⟩
    · intro found' other
      rw [unique found' other, deep]
      exact targets l target
    · rw [length]
      exact kept.locals
  | @caught fuel depth a w op' f pc w' at_ failed handled =>
    refine ⟨kept.has, ?_, kept.locals⟩
    intro found' other
    obtain ⟨h, found_, rfl⟩ := Option.map_eq_some_iff.1 handled
    exact (Verify.settledConsistent other).1.handler h (List.mem_of_find?_eq_some found_)

theorem keptClosed {S : Point → Prop} (closed : Closed lib S)
    (fine : ∀ p, S p → p.Measured lib ∧ p.StoresValues) : Closed lib (fun p => S p ∧ Kept lib p) :=
  closed.inter (fun _ has fuel depth args w => startKept has fuel depth args w)
    fun inside kept follows => kept.follow accepted (fine _ inside).1 (fine _ inside).2 follows

theorem endsUnbroken {S : Point → Prop} (closed : Closed lib S)
    (fine : ∀ p, S p → p.StoresValues ∧ ¬ p.Reraises ∧ Kept lib p) (inside : S ⟨fuel, depth, a, w⟩) :
    (exec lib fuel depth a).Ends w (fun _ _ => True) (fun f _ => ¬ Broken f) := by
  induction fuel generalizing depth a w with
  | zero => trivial
  | succ fuel ih =>
    obtain ⟨stores, calm, kept⟩ := fine _ inside
    obtain ⟨found, op, settled, here, checked, _⟩ := kept.operation accepted
    -- Calls outside the set do not matter to the turn; let them never end.
    classical
    let run : Nat → Activation → Run Value := fun d b v =>
      if S ⟨fuel, d, b, v⟩ then exec lib fuel d b v else (.error .never, v)
    have quiet : Quiet (fun _ => False) (enter run depth) := by
      intro m args v
      unfold enter
      split
      · exact fun broken => absurd broken (failedNotBroken (by simp) (by simp))
      · by_cases known : S ⟨fuel, depth + 1, .start m args, v⟩
        · have same : run (depth + 1) (.start m args) v = exec lib fuel (depth + 1) (.start m args) v := if_pos known
          have calm := ih known
          unfold Run.Ends at calm ⊢
          rw [same]
          exact calm
        · have never : run (depth + 1) (.start m args) v = (.error .never, v) := if_neg known
          unfold Run.Ends
          rw [never]
          trivial
    have same : step lib (enter run depth) (continueWith lib run) op a w = turn lib fuel depth op a w :=
      closed.calls inside here run fun d b v known => if_pos known
    have safe : (step lib (enter run depth) (continueWith lib run) op a).Ends w (fun _ _ => True)
        (fun f _ => ¬ Broken f) := by
      refine (stepSafe quiet (checkedOp checked).1 (stores op here)).mono (fun _ _ _ => trivial) ?_
      intro f _ given broken
      rcases given broken with carried | none
      · exact calm ⟨op, f, here, broken, carried⟩
      · exact none
    unfold Run.Ends at safe
    rw [same] at safe
    have here : a.method.ops[a.pc]? = some op := here
    unfold Run.Ends
    rcases answer : turn lib fuel depth op a w with ⟨(f | _) | next, w'⟩
    · rw [answer] at safe
      cases handled : a.method.handlerFor? a.pc f with
      | some pc =>
        rw [execCaught here answer handled]
        exact ih (closed.follows inside (.caught here answer handled))
      | none =>
        rw [execFault here answer handled]
        exact safe
    · rw [execNever here answer]
      trivial
    · cases next with
      | next s ls =>
        rw [execNext here answer]
        exact ih (closed.follows inside (.next here answer))
      | jump pc s ls =>
        rw [execJump here answer]
        exact ih (closed.follows inside (.jump here answer))
      | done v =>
        rw [execDone here answer]
        trivial

end Turns

/-- A run on accepted code whose operands are as wide as declared and that stores into fields of values only
keeps to what the verifier recorded, at every point and in every call; if no fault of broken code is handed
to it to be raised again, it ends with none. -/
theorem acceptedCodeStaysInBounds {lib : Library} (accepted : lib.Accepted) {m : Method} (has : lib.Has m)
    (args : List Value) (fuel depth : Nat) (w : World) :
    (Always lib (fun p => p.Measured lib ∧ p.StoresValues) ⟨fuel, depth, .start m args, w⟩ →
      Always lib Point.Held ⟨fuel, depth, .start m args, w⟩) ∧
    (Always lib (fun p => p.Measured lib ∧ p.StoresValues ∧ ¬ p.Reraises) ⟨fuel, depth, .start m args, w⟩ →
      ∀ f w', exec lib fuel depth (.start m args) w = (.error (.fault f), w') → ¬ Broken f) := by
  have start := startKept has fuel depth args w
  constructor
  · rintro ⟨S, inside, closed, fine⟩
    exact ⟨_, ⟨inside, start⟩, keptClosed accepted closed fine, fun p both => both.2.held accepted⟩
  · rintro ⟨S, inside, closed, fine⟩ f w' failed
    have within := keptClosed accepted closed fun p known => ⟨(fine p known).1, (fine p known).2.1⟩
    have calm := endsUnbroken accepted within
      (fun p both => ⟨(fine p both.1).2.1, (fine p both.1).2.2, both.2⟩) ⟨inside, start⟩
    exact calm.faulted failed

def alone (m : Method) : Library := ⟨[⟨m.ref.cls, [], [], [m]⟩]⟩

theorem aloneHas {m n : Method} : (alone m).Has n ↔ n = m := by
  simp [Library.Has, alone]

theorem aloneAccepted {m : Method} {n : Nat} (ok : m.verdict = .ok n) : (alone m).Accepted := by
  intro other has
  rw [aloneHas.1 has]
  exact ⟨n, ok⟩

theorem aloneAlways {m : Method} {P : Point → Prop}
    (holds : ∀ p : Point, (∀ op, p.op? = some op → op ∈ m.ops) → P p) (fuel depth : Nat) (args : List Value)
    (w : World) : Always (alone m) P ⟨fuel, depth, .start m args, w⟩ := by
  refine ⟨_, aloneHas.2 rfl, loadedClosed (alone m), ?_⟩
  intro p has
  refine holds p ?_
  intro op here
  have at_ : p.activation.method.ops[p.activation.pc]? = some op := here
  rw [aloneHas.1 has] at at_
  exact Array.mem_of_getElem? at_

/-- Calls itself as deep as calls go, and takes the fault that ends it. -/
def descend : Method :=
  ⟨⟨"u", "descend", [], .void, true⟩, #[.invoke ⟨"u", "descend", [], .void, true⟩, .ret 0, .pop 1, .ret 0],
    #[0, 1, 2], [⟨0, 1, 2, .any⟩], 0, 1⟩

theorem invokeVoid {lib : Library} {fuel depth : Nat} {m : MethodRef} (void : m.returns.width = 0)
    {a : Activation} {w : World} : (turn lib fuel depth (.invoke m) a).Ends w
      (fun next _ => next = .next (a.stack.drop m.argSlots) a.locals) (fun _ _ => True) := by
  unfold turn step
  simp only [Run.endsBind, Run.endsHeap, core, outer, Run.endsLift, Run.endsPure, void, if_true]
  refine Answers.mono (Q := fun _ => True) (E := fun _ => True) ?_ ?_ (fun _ _ => trivial)
  · cases methodNamed lib m.cls m.name <;> trivial
  · intro callee _
    unfold Run.Ends
    split <;> trivial

theorem descendFine (fuel depth : Nat) (w : World) :
    Always (alone descend) (fun p => p.Measured (alone descend) ∧ p.StoresValues ∧ ¬ p.Reraises)
      ⟨fuel, depth, .start descend [], w⟩ := by
  refine aloneAlways ?_ fuel depth [] w
  intro p member
  have listed : ∀ op, p.op? = some op → op = .invoke descend.ref ∨ op = .ret 0 ∨ op = .pop 1 ∨ op = .ret 0 := by
    intro op here
    simpa [descend] using member op here
  refine ⟨?_, ?_, ?_⟩
  · intro fuel op v ls w' _ here wide ok
    rcases listed op here with rfl | rfl | rfl | rfl
    · have length := congrArg List.length (Next.next.inj ((invokeVoid rfl).value ok)).1
      rw [pushLength] at length
      change v.width = 0
      simp only [Op.effect] at length
      omega
    all_goals contradiction
  · intro op here
    rcases listed op here with rfl | rfl | rfl | rfl <;> trivial
  · rintro ⟨op, f, here, _, carries⟩
    rcases listed op here with rfl | rfl | rfl | rfl <;> contradiction

theorem descendStaysInBounds :
    Always (alone descend) Point.Held ⟨1000, 1, .start descend [], .empty .empty⟩ ∧
    ∀ f w', exec (alone descend) 1000 1 (.start descend []) (.empty .empty) = (.error (.fault f), w') →
      ¬ Broken f := by
  have both := acceptedCodeStaysInBounds (aloneAccepted (m := descend) (n := 1) rfl) (aloneHas.2 rfl)
    [] 1000 1 (.empty .empty)
  refine ⟨both.1 ?_, both.2 (descendFine 1000 1 (.empty .empty))⟩
  obtain ⟨S, start, closed, holds⟩ := descendFine 1000 1 (.empty .empty)
  exact ⟨S, start, closed, fun p inside => ⟨(holds p inside).1, (holds p inside).2.1⟩⟩

/-- Stores nothing into a static field of no type; to the verifier an operation without operands. -/
def storeNothing : Method :=
  ⟨⟨"u", "m", [], .void, true⟩, #[.putStatic ⟨"u", "x", .void⟩, .ret 0], #[], [], 0, 0⟩

def throwGiven : Method :=
  ⟨⟨"u", "m", [.ref "Fault"], .object, true⟩, #[.load 0, .throw], #[], [], 1, 1⟩

theorem unmeasured {lib : Library} {m : Method} (plain : m.ops.toList.all (!isMeasured ·) = true) (p : Point)
    (member : ∀ op, p.op? = some op → op ∈ m.ops) : p.Measured lib := by
  intro fuel op v ls w _ here wide
  have narrow := List.all_eq_true.1 plain op (member op here).val
  simp [wide] at narrow

/-- Neither is measured, and both end with the fault of an empty stack: the one because nothing is popped, the
other because the fault is what it was given. -/
theorem underflowOnAcceptedCode :
    ((alone storeNothing).Accepted ∧
      Always (alone storeNothing) (Point.Measured (alone storeNothing))
        ⟨2, 1, .start storeNothing [], .empty .empty⟩ ∧
      exec (alone storeNothing) 2 1 (.start storeNothing []) (.empty .empty) =
        (.error (.fault (.failed "operand stack underflow")), .empty .empty)) ∧
    (alone throwGiven).Accepted ∧
      Always (alone throwGiven) (Point.Measured (alone throwGiven))
        ⟨2, 1, .start throwGiven [.throwable underflow], .empty .empty⟩ ∧
      exec (alone throwGiven) 2 1 (.start throwGiven [.throwable underflow]) (.empty .empty) =
        (.error (.fault (.failed "operand stack underflow")), .empty .empty) := by
  refine ⟨⟨aloneAccepted (n := 0) rfl, ?_, rfl⟩, aloneAccepted (n := 1) rfl, ?_, rfl⟩
  · exact aloneAlways (unmeasured rfl) 2 1 [] _
  · exact aloneAlways (unmeasured rfl) 2 1 [.throwable underflow] _

end Machine

end QueryMachine
