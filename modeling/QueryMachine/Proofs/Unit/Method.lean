import QueryMachine.Proofs.Expr.Frame
import QueryMachine.Unit.Draft

/-! Methods as they are rendered. A body that is followed to its end is accepted by the verifier, and the method is
its code, laid out. -/
namespace QueryMachine

open Emit (Out)

structure Method.Lays (m : Method) (A : Asm) : Prop where
  ops : m.ops.toList = A.ops
  places : ∀ l p, (l, p) ∈ Asm.marks 0 A → m.position l = p

def Slots.body (fs : Frames) (f : FrameId) : Slots := Slots.enter ⟨[], 0⟩ f ((fs.frame f).locals.map (·.2))

def Finished (knows : String → Prop) (returns : Nat) (σ : Slots) (A : Asm) (hs : List Handler) (e : Emitter) : Prop :=
  ∃ e₁ Λ W τ, Walk knows (some returns) .empty e₁ τ A Λ W none ∧ (∀ l, ¬ W l) ∧ τ.active = σ.active ∧
    σ.next ≤ τ.next ∧ (∀ h ∈ hs, (h.start, 0) ∈ Λ ∧ (h.target, 1) ∈ Λ) ∧ e = { e₁ with handlers := hs }

def Seq.Fills (E : Error → Prop) (knows : String → Prop) (Γ : Frames → Slots → Prop) (returns : Nat)
    (K : Slots → Asm → List Handler → Prop) (body : Seq) : Prop :=
  ∀ fs e, Γ fs e.slots → Walk knows (some returns) .empty e e.slots [] [] (fun _ => False) (some 0) →
    Out body fs e E fun _ e' => ∃ A hs, K e.slots A hs ∧ Finished knows returns e.slots A hs e'

def MethodDraft.trailer (m : MethodDraft) : Asm := if m.returns.isVoid then [.op (.ret 0)] else []

theorem flowsOps {b : Limits} {G : Label → Nat} {A : Asm} {d : Nat} (flows : Flows b G A (some d) none) : A.ops ≠ [] := by
  induction A generalizing d with
  | nil => contradiction
  | cons item A ih =>
    cases item with
    | op o => exact List.cons_ne_nil o _
    | mark l => exact ih flows.2

namespace Finished

variable {knows : String → Prop} {returns : Nat} {σ : Slots} {A : Asm} {hs : List Handler} {e : Emitter}

theorem ops (finished : Finished knows returns σ A hs e) : e.ops.toList = A.ops := by
  obtain ⟨e₁, Λ, W, τ, walk, _, _, _, _, rfl⟩ := finished
  simpa [Emitter.empty] using walk.ops

theorem bound (finished : Finished knows returns σ A hs e) {l : Label} (low : l < e.labels.size) :
    ∃ p, (l, p) ∈ Asm.marks 0 A ∧ e.labels[l]? = some (some p) := by
  obtain ⟨e₁, Λ, W, τ, walk, settled, _, _, _, rfl⟩ := finished
  obtain ⟨p, marked⟩ := (walk.bound l (Nat.zero_le l) low).resolve_left (settled l)
  exact ⟨p, marked, walk.placed l p marked⟩

theorem allBound (finished : Finished knows returns σ A hs e) :
    e.labels.toList.findIdx? (·.isNone) = none := by
  rw [List.findIdx?_eq_none_iff]
  intro x inside
  obtain ⟨l, low, rfl⟩ := List.mem_iff_getElem.1 inside
  obtain ⟨p, _, is⟩ := finished.bound (l := l) (by simpa using low)
  rw [Array.getElem?_eq_some_iff] at is
  obtain ⟨_, is⟩ := is
  simp [is]

def place (e : Emitter) (l : Label) : Nat := ((e.labels.toList[l]?).getD none).getD 0

theorem placed (finished : Finished knows returns σ A hs e) {l : Label} (low : l < e.labels.size) :
    (l, place e l) ∈ Asm.marks 0 A := by
  obtain ⟨p, marked, is⟩ := finished.bound low
  have same : place e l = p := by
    rw [Array.getElem?_eq_some_iff] at is
    obtain ⟨_, is⟩ := is
    simp [place, low, is]
  rw [same]
  exact marked

theorem flows (finished : Finished knows returns σ A hs e) :
    ∃ G : Label → Nat, Flows ⟨e.maxLocals, returns, knows⟩ G A (some 0) none ∧
      ∀ h ∈ hs, G h.start = 0 ∧ G h.target = 1 := by
  obtain ⟨e₁, Λ, W, τ, walk, _, _, _, guarded, rfl⟩ := finished
  obtain ⟨G, _, own, flows⟩ := walk.typed 0 (fun _ => rfl) fun _ => 0
  refine ⟨G, ?_, ?_⟩
  · refine flows G (fun _ _ => rfl) ⟨e₁.maxLocals, returns, knows⟩ (Nat.le_refl _) ?_ fun _ h => h
    intro n same
    exact Option.some.inj same
  · intro h inside
    obtain ⟨start, target⟩ := guarded h inside
    exact ⟨own _ _ start, own _ _ target⟩

theorem accepted (finished : Finished knows returns σ A hs e) :
    ∃ n, verify e.ops e.labels.toList e.handlers e.maxLocals returns = .ok n := by
  obtain ⟨G, flows, guarded⟩ := finished.flows
  have inside : ∀ o ∈ A.ops, ∀ l ∈ o.targets, l < e.labels.size := by
    obtain ⟨e₁, Λ, W, τ, walk, _, _, _, _, rfl⟩ := finished
    intro o member l target
    exact (walk.inner o member l target).2
  have regions : e.handlers = hs ∧ ∀ h ∈ hs, h.start < e.labels.size ∧ h.target < e.labels.size := by
    obtain ⟨e₁, Λ, W, τ, walk, _, _, _, guarded, rfl⟩ := finished
    refine ⟨rfl, ?_⟩
    intro h member
    obtain ⟨start, target⟩ := guarded h member
    exact ⟨(walk.own _ _ start).2, (walk.own _ _ target).2⟩
  obtain ⟨D, consistent⟩ := flowsConsistent (t := ⟨e.ops, place e, e.handlers, e.maxLocals, returns⟩) flows
    finished.ops rfl rfl (fun o member l target => finished.placed (inside o member l target)) (by
      intro h member
      rw [regions.1] at member
      obtain ⟨start, target⟩ := regions.2 h member
      exact ⟨finished.placed start, finished.placed target, (guarded h member).1, (guarded h member).2⟩)
  obtain ⟨p, settled, _⟩ := Verify.settledOfConsistent consistent
  refine ⟨p.maxStack, ?_⟩
  have some : ¬ e.ops.isEmpty := by
    intro empty
    refine flowsOps flows ?_
    rw [← finished.ops]
    simpa using empty
  unfold verify
  rw [if_neg some, finished.allBound]
  change (Verify.settled ⟨e.ops, place e, e.handlers, e.maxLocals, returns⟩ >>= fun p => pure p.maxStack) = _
  rw [settled]
  rfl

theorem members (finished : Finished knows returns σ A hs e) {o : Op} (inside : o ∈ e.ops) {cls : String}
    (member : o.memberClass? = some cls) : knows cls := by
  obtain ⟨G, flows, _⟩ := finished.flows
  refine flowsMembers flows ?_ member
  rw [← finished.ops]
  exact inside.val

theorem lays (finished : Finished knows returns σ A hs e) (ref : MethodRef) (maxStack : Nat) :
    (Method.mk ref e.ops (e.labels.toList.map (·.getD 0)).toArray e.handlers e.maxLocals maxStack).Lays A where
  ops := finished.ops
  places l p marked := by
    obtain ⟨e₁, Λ, W, τ, walk, _, _, _, _, rfl⟩ := finished
    have is := walk.placed l p marked
    obtain ⟨low, is⟩ := Array.getElem?_eq_some_iff.1 is
    simp [Method.position, Array.getD_eq_getD_getElem?, low, is]

theorem trailing (finished : Finished knows returns σ A hs e) :
    Finished knows returns σ (A ++ [.op (.ret 0)]) hs { e with ops := e.ops.push (.ret 0) } := by
  obtain ⟨e₁, Λ, W, τ, walk, settled, active, later, guarded, rfl⟩ := finished
  exact ⟨_, Λ, W, τ, walk.dead rfl rfl, settled, active, later, guarded, rfl⟩

theorem outExit {fs : Frames} {f : FrameId} {E : Error → Prop} {Q : Unit → Emitter → Prop}
    (finished : Finished knows returns (Slots.body fs f) A hs e)
    (next : ∀ e', Finished knows returns ⟨[], 0⟩ A hs e' → (Slots.body fs f).next ≤ e'.maxLocals → Q () e') :
    Out (Emit.exitFrame f) fs e E Q := by
  obtain ⟨e₁, Λ, W, τ, walk, settled, active, later, guarded, rfl⟩ := finished
  have here : e₁.active = ⟨f, 0, (Emit.layout 0 ((fs.frame f).locals.map (·.2))).1⟩ :: [] := by
    rw [← show τ.active = e₁.active from congrArg Slots.active walk.slots.symm, active]
    rfl
  unfold Emit.exitFrame
  rw [Emit.outBind, Emit.outGet]
  simp only [here, if_true, Emit.outSet]
  refine next _ ⟨{ e₁ with active := [], nextSlot := 0 }, Λ, W, ⟨[], 0⟩, ?_, settled, rfl, Nat.le_refl _, guarded, rfl⟩
    (Nat.le_trans later walk.room)
  exact walk.moved rfl rfl rfl rfl (Nat.zero_le _) (Nat.le_refl _)

end Finished

namespace MethodDraft

structure Created (fs : Frames) (receiver : Option Ty) (params : List (String × Ty)) (m : MethodDraft) (fs' : Frames) :
    Prop where
  frame : m.frame = fs.table.size
  grows : fs.Grows fs'
  size : fs'.table.size = fs.table.size + 1
  outermost : (fs'.frame m.frame).ancestors = []
  has : ∀ l ∈ m.receiver.toList ++ m.locals, l.frame = m.frame ∧ fs'.Has l
  only : ∀ l, fs'.Has l → fs.Has l ∨ l ∈ m.receiver.toList ++ m.locals
  indexed : ∀ i (l : Local), (m.receiver.toList ++ m.locals)[i]? = some l → l.index = i
  whole : (fs'.frame m.frame).locals.map (·.2) = receiver.toList.map (·.nonNull) ++ params.map (·.2)
  locals : m.locals.map (fun l => (l.name, l.type)) = params
  receiver : m.receiver.map (·.type) = receiver.map (·.nonNull)
  older : ∀ f, f < fs.table.size → fs'.frame f = fs.frame f

theorem created (fs : Frames) (cls name : String) (receiver : Option Ty) (params : List (String × Ty)) (returns : Ty) :
    Created fs receiver params (create fs cls name receiver params returns).1
      (create fs cls name receiver params returns).2 := by
  have inside : fs.table.size < (Frames.mk (fs.table.push ⟨[], [], 0⟩)).table.size := by simp
  have pushed := fs.pushGrows ⟨[], [], 0⟩
  cases receiver with
  | none =>
    have all := Frames.allocatedAll (Frames.mk (fs.table.push ⟨[], [], 0⟩)) params inside
    refine ⟨rfl, pushed.setNew (Nat.le_refl _) _, ?_, ?_, all.has, ?_, ?_, ?_, all.typed, rfl, ?_⟩
    · exact all.size.trans (by simp)
    · exact all.ancestors.trans (congrArg Frame.ancestors (fs.pushNew ⟨[], [], 0⟩))
    · exact fun l there => (all.only l there).imp_left (Frames.pushInv rfl)
    · intro i l at_
      rw [all.indexed i l at_, Frames.pushNew]
      exact Nat.zero_add i
    · refine (congrArg (List.map Prod.snd) all.locals).trans ?_
      rw [Frames.pushNew]
      rfl
    · exact fun f low => (all.others f (Nat.ne_of_lt low)).trans (Frames.pushFrame low)
  | some t =>
    have deeper : fs.table.size < ((Frames.mk (fs.table.push ⟨[], [], 0⟩)).allocate fs.table.size "this"
        t.nonNull).2.table.size := by simp [Frames.allocate]
    have all := Frames.allocatedAll ((Frames.mk (fs.table.push ⟨[], [], 0⟩)).allocate fs.table.size "this" t.nonNull).2
      params deeper
    have this : ((Frames.mk (fs.table.push ⟨[], [], 0⟩)).allocate fs.table.size "this" t.nonNull).2.frame fs.table.size =
        ⟨[], [("this", t.nonNull)], 0⟩ := by
      simp only [Frames.allocate]
      rw [Frames.frameSet inside, if_pos rfl, Frames.pushNew]
      rfl
    refine ⟨rfl, (pushed.setNew (Nat.le_refl _) _).setNew (Nat.le_refl _) _, ?_, ?_, ?_, ?_, ?_, ?_, all.typed, rfl, ?_⟩
    · exact all.size.trans (by simp [Frames.allocate])
    · exact all.ancestors.trans (congrArg Frame.ancestors this)
    · intro l member
      obtain rfl | later := List.mem_cons.1 member
      · exact ⟨rfl, all.keeps _ (Frames.allocateHas inside "this" t.nonNull)⟩
      · exact all.has l later
    · intro l there
      obtain old | later := all.only l there
      · obtain older | rfl := Frames.allocateInv inside old
        · exact .inl (Frames.pushInv rfl older)
        · exact .inr List.mem_cons_self
      · exact .inr (List.mem_cons_of_mem _ later)
    · intro i l at_
      cases i with
      | zero =>
        cases at_
        exact congrArg (fun x => x.locals.length) (fs.pushNew ⟨[], [], 0⟩)
      | succ i =>
        rw [all.indexed i l at_, this]
        exact Nat.add_comm 1 i
    · refine (congrArg (List.map Prod.snd) all.locals).trans ?_
      rw [this]
      rfl
    · intro f low
      refine (all.others f (Nat.ne_of_lt low)).trans ?_
      simp only [Frames.allocate]
      rw [Frames.frameSet inside, if_neg (Nat.ne_of_lt low), Frames.pushFrame low]

variable {E : Error → Prop} {knows : String → Prop} {Γ : Frames → Slots → Prop} {K : Slots → Asm → List Handler → Prop}
  {m : MethodDraft} {fs : Frames} {body : Seq}

theorem outEmission {e : Emitter} {Q : Unit → Emitter → Prop}
    (out : Out (do
      Emit.enterFrame m.frame
      body
      if m.returns.isVoid then Emit.op (.ret 0)) fs e E fun _ e' => Out (Emit.exitFrame m.frame) fs e' E Q) :
    Out (m.emission body) fs e E Q := by
  rw [Emit.outBind] at out
  unfold emission
  rw [Emit.outBind]
  refine out.mono ?_ fun _ h => h
  intro _ e₁ out
  rw [Emit.outBind]
  refine Emit.outTry ?_
  have failing : ∀ err, E err → ∀ e', Out (do
      tryCatch (Emit.exitFrame m.frame) fun _ => return ()
      throw err) fs e' E Q := fun err is e' => Emit.outRethrow is
  simp only [Emit.outBind] at failing
  cases void : m.returns.isVoid with
  | false =>
    simp only [void, Bool.false_eq_true, if_false, Emit.outBind, Emit.outPure] at out ⊢
    exact out.mono (fun _ _ h => h) failing
  | true =>
    simp only [void, if_true, Emit.outBind, Emit.outPure] at out ⊢
    exact out.mono (fun _ _ h => h.mono (fun _ _ h => h) failing) failing

theorem emissionFinishes (fills : body.Fills E knows Γ m.returns.width K) (visible : Γ fs (Slots.body fs m.frame)) :
    Out (m.emission body) fs .empty E fun _ e => ∃ A hs, K (Slots.body fs m.frame) A hs ∧
      Finished knows m.returns.width ⟨[], 0⟩ (A ++ m.trailer) hs e ∧ (Slots.body fs m.frame).next ≤ e.maxLocals := by
  refine outEmission ?_
  rw [Emit.outBind]
  have start : Walk knows (some m.returns.width) .empty .empty ⟨[], 0⟩ [] [] (fun _ => False) (some 0) :=
    Walk.start (Nat.le_refl 0)
  refine start.outEnter ?_
  intro e₁ walk
  have same : e₁.slots = Slots.body fs m.frame := walk.slots
  rw [Emit.outBind]
  refine (fills fs e₁ (by rw [same]; exact visible) (by rw [same]; exact walk)).mono ?_ fun _ h => h
  intro _ e₂ ⟨A, hs, shape, finished⟩
  rw [same] at shape finished
  unfold trailer
  cases void : m.returns.isVoid with
  | false =>
    simp only [Bool.false_eq_true, if_false, Emit.outPure, List.append_nil]
    exact finished.outExit fun e₃ finished room => ⟨A, hs, shape, finished, room⟩
  | true =>
    simp only [if_true]
    exact finished.trailing.outExit fun e₃ finished room => ⟨A, hs, shape, finished, room⟩

def slots (fs : Frames) (m : MethodDraft) : Nat :=
  match m.body with
  | none => 0
  | some body => (m.emission body fs .empty).2.maxLocals

def Fits (fs : Frames) (m : MethodDraft) : Prop := m.slots fs ≤ Emitter.slotLimit

instance (fs : Frames) (m : MethodDraft) : Decidable (m.Fits fs) := inferInstanceAs (Decidable (_ ≤ _))

theorem slotsIs (is : m.body = some body) (fs : Frames) : m.slots fs = (m.emission body fs .empty).2.maxLocals := by
  unfold slots
  rw [is]

theorem renderOverflows (crowded : ¬ m.Fits fs) (h : Heap) (verifying : Bool) :
    ∃ f, m.render fs h verifying = .error f ∧ f.error = .of .overflow := by
  unfold Fits slots at crowded
  unfold render
  cases is : m.body with
  | none => simp [is] at crowded
  | some body =>
    simp only [is] at crowded
    exact ⟨m.failure (.of .overflow) "", if_pos (Nat.lt_of_not_le crowded), rfl⟩

theorem renderFits {method : Method} {h : Heap} {verifying : Bool} (is : m.render fs h verifying = .ok method) : m.Fits fs := by
  refine Decidable.byContradiction fun crowded => ?_
  obtain ⟨f, fails, _⟩ := renderOverflows crowded h verifying
  cases fails.symm.trans is

theorem rendered (is : m.body = some body) (fills : body.Fills E knows Γ m.returns.width K)
    (visible : Γ fs (Slots.body fs m.frame)) (h : Heap) (verifying : Bool) :
    match m.render fs h verifying with
    | .ok method => ∃ A, K (Slots.body fs m.frame) A method.handlers ∧ method.Lays (A ++ m.trailer) ∧ method.ref = m.ref ∧
        (∀ o ∈ method.ops, ∀ cls, o.memberClass? = some cls → knows cls) ∧
        (Slots.body fs m.frame).next ≤ method.maxLocals
    | .error f => E f.error ∨ f.error = .of .overflow ∧ ¬ m.Fits fs := by
  by_cases fits : m.Fits fs
  case neg =>
    obtain ⟨f, fails, overflow⟩ := renderOverflows fits h verifying
    rw [fails]
    exact .inr ⟨overflow, fits⟩
  have out := emissionFinishes fills visible
  have low : ¬ Emitter.slotLimit < (m.emission body fs .empty).2.maxLocals := Nat.not_lt.2 (slotsIs is fs ▸ fits)
  unfold render
  rw [is]
  unfold Out at out
  rcases answer : m.emission body fs .empty with ⟨err | v, e⟩
  · simp only [answer] at out low ⊢
    rw [if_neg low]
    exact .inl out
  · simp only [answer] at out low ⊢
    rw [if_neg low]
    obtain ⟨A, hs, shape, finished, room⟩ := out
    obtain ⟨n, accepted⟩ := finished.accepted
    have regions : e.handlers = hs := by
      obtain ⟨e₁, Λ, W, τ, walk, settled, active, later, guarded, rfl⟩ := finished
      rfl
    cases verifying <;> simp only [accepted, finished.allBound, if_true, Bool.false_eq_true, if_false, bind,
      Except.bind] <;>
      exact ⟨A, regions ▸ shape, finished.lays _ _, trivial, fun o inside cls member => finished.members inside member, room⟩

def Roomy (made : Frames) (m : MethodDraft) : Prop :=
  ∀ fs, made.Grows fs → ∀ h verifying method, m.render fs h verifying = .ok method →
    (Slots.body fs m.frame).next ≤ method.maxLocals

theorem roomyOf {made : Frames} (is : m.body = some body) (fills : body.Fills E knows Γ m.returns.width K)
    (visible : ∀ fs, made.Grows fs → Γ fs (Slots.body fs m.frame)) : m.Roomy made := by
  intro fs grows h verifying method answer
  have made := rendered is fills (visible fs grows) h verifying
  rw [answer] at made
  obtain ⟨_, _, _, _, _, room⟩ := made
  exact room

theorem Roomy.later {made made' : Frames} (roomy : m.Roomy made) (grows : made.Grows made') : m.Roomy made' :=
  fun fs more => roomy fs (grows.trans more)

/-- However the frames grow, the method is rendered to code that `K` describes and that uses known classes only,
unless its body fails with an error of `E` or there are too few slots. -/
def Ready (E : Error → Prop) (knows : String → Prop) (made : Frames) (K : Slots → Asm → List Handler → Prop)
    (m : MethodDraft) : Prop :=
  ∀ fs, made.Grows fs → ∀ h verifying, match m.render fs h verifying with
    | .ok method => ∃ A, K (Slots.body fs m.frame) A method.handlers ∧ method.Lays (A ++ m.trailer) ∧ method.ref = m.ref ∧
        ∀ o ∈ method.ops, ∀ cls, o.memberClass? = some cls → knows cls
    | .error f => E f.error ∨ f.error = .of .overflow ∧ ¬ m.Fits fs

theorem readyOf {made : Frames} (is : m.body = some body) (fills : body.Fills E knows Γ m.returns.width K)
    (visible : ∀ fs, made.Grows fs → Γ fs (Slots.body fs m.frame)) : m.Ready E knows made K :=
  fun fs grows h verifying => by
    have made := rendered is fills (visible fs grows) h verifying
    cases answer : m.render fs h verifying with
    | error f =>
      rw [answer] at made
      exact made
    | ok method =>
      rw [answer] at made
      obtain ⟨A, shape, lays, ref, members, _⟩ := made
      exact ⟨A, shape, lays, ref, members⟩

theorem Ready.mono {made made' : Frames} {knows' : String → Prop} {E' : Error → Prop}
    {K' : Slots → Asm → List Handler → Prop} (ready : m.Ready E knows made K) (errors : ∀ err, E err → E' err)
    (more : ∀ cls, knows cls → knows' cls) (grows : made.Grows made') (weaker : ∀ σ A hs, K σ A hs → K' σ A hs) :
    m.Ready E' knows' made' K' := by
  intro fs later h verifying
  have is := ready fs (grows.trans later) h verifying
  cases answer : m.render fs h verifying with
  | ok method =>
    rw [answer] at is
    obtain ⟨A, shape, lays, ref, members⟩ := is
    exact ⟨A, weaker _ A _ shape, lays, ref, fun o inside cls member => more cls (members o inside cls member)⟩
  | error f =>
    rw [answer] at is
    exact is.imp_left (errors _)

end MethodDraft

namespace UnitDraft

def Fits (fs : Frames) (u : UnitDraft) : Prop := ∀ m ∈ u.methods, m.Fits fs

instance (fs : Frames) (u : UnitDraft) : Decidable (u.Fits fs) := inferInstanceAs (Decidable (∀ m ∈ _, _))

end UnitDraft

end QueryMachine
