import Mathlib.Algebra.GroupWithZero.Nat
import QueryMachine.Proofs.Unit.Rendering
import QueryMachine.Proofs.Unit.Struct

/-! How many slots the code of a method takes: those of its frame, and the temporaries that its body asks for. The
constructor of a struct type takes the slots of its fields, and runs out of them where the fields are too many. -/
namespace QueryMachine

namespace Emit

variable {α β : Type} {n k : Nat}

/-- Whether it fails or not, at most `n` slots are taken beside those that are. -/
def Takes (n : Nat) (x : Emit α) : Prop :=
  ∀ fs e, (x fs e).2.nextSlot ≤ e.nextSlot + n ∧ (x fs e).2.maxLocals ≤ max e.maxLocals (e.nextSlot + n)

theorem takesLevel {x : Emit α} (level : ∀ fs e, (x fs e).2.nextSlot = e.nextSlot ∧ (x fs e).2.maxLocals = e.maxLocals) :
    Takes 0 x := by
  intro fs e
  obtain ⟨next, locals⟩ := level fs e
  rw [next, locals]
  exact ⟨Nat.le_refl _, Nat.le_max_left _ _⟩

theorem takesPure (v : α) : Takes 0 (pure v) := takesLevel fun _ _ => ⟨rfl, rfl⟩

theorem takesFail (c : Cause) : Takes 0 (fail c : Emit α) := takesLevel fun _ _ => ⟨rfl, rfl⟩

theorem takesOp (o : Op) : Takes 0 (op o) := takesLevel fun _ _ => ⟨rfl, rfl⟩

theorem takesOps (os : List Op) : Takes 0 (ops os) := takesLevel fun _ _ => ⟨rfl, rfl⟩

theorem takesLabel : Takes 0 newLabel := takesLevel fun _ _ => ⟨rfl, rfl⟩

theorem takesMark (l : Label) : Takes 0 (mark l) := takesLevel fun _ _ => ⟨rfl, rfl⟩

theorem takesTemp (width : Nat) : Takes (max width 1) (newTemp width) := fun _ _ => ⟨Nat.le_refl _, Nat.le_refl _⟩

theorem Takes.bind {x : Emit α} {f : α → Emit β} (first : Takes n x) (second : ∀ v, Takes k (f v)) :
    Takes (n + k) (x >>= f) := by
  intro fs e
  obtain ⟨next, locals⟩ := first fs e
  rcases answer : x fs e with ⟨err | v, e₁⟩
  · rw [bindError answer]
    rw [answer] at next locals
    dsimp only at next locals ⊢
    omega
  · rw [bindOk answer]
    rw [answer] at next locals
    obtain ⟨next', locals'⟩ := second v fs e₁
    dsimp only at next locals
    omega

theorem Takes.then {x : Emit α} {f : α → Emit β} (first : Takes 0 x) (second : ∀ v, Takes 0 (f v)) : Takes 0 (x >>= f) :=
  first.bind second

theorem takesIf {p : Prop} [Decidable p] {x y : Emit α} (first : Takes n x) (second : Takes n y) :
    Takes n (if p then x else y) := by
  split
  · exact first
  · exact second

theorem takesFor {x : α → Emit Unit} {l : List α} (each : ∀ v ∈ l, Takes 0 (x v)) : Takes 0 (l.forM x) := by
  induction l with
  | nil => exact takesPure ()
  | cons v l ih => exact (each v List.mem_cons_self).bind fun _ => ih fun u inside => each u (List.mem_cons_of_mem v inside)

theorem takesLabels (n : Nat) : Takes 0 (newLabels n) := by
  unfold newLabels
  generalize List.range n = l
  induction l with
  | nil => exact takesPure []
  | cons i l ih =>
    rw [List.mapM_cons]
    exact takesLabel.bind fun _ => ih.bind fun _ => takesPure _

theorem takesSlotOf (l : Local) : Takes 0 (slotOf l) := by
  refine takesLevel fun fs e => ?_
  unfold slotOf
  rw [bindOk (show (get : Emit Emitter) fs e = (.ok e, e) from rfl)]
  cases e.active.findSome? fun a => if a.frame = l.frame then a.slots[l.index]? else none <;> exact ⟨rfl, rfl⟩

theorem takesLoad (slot width : Nat) : Takes 0 (load slot width) := takesOp _

theorem takesStore (slot width : Nat) : Takes 0 (store slot width) := takesOp _

theorem takesDup (t : Ty) : Takes 0 (dup t) := by
  unfold dup
  split
  · exact takesPure ()
  · exact takesOp _

theorem takesPop (t : Ty) : Takes 0 (pop t) := by
  unfold pop
  split
  · exact takesPure ()
  · exact takesOp _

theorem takesBox (t : Ty) : Takes 0 (box t) := by
  unfold box
  split
  · exact takesOp _
  · exact takesPure ()

theorem takesCheckCast (target source : Ty) : Takes 0 (checkCast target source) := by
  unfold checkCast
  split
  · exact takesOp _
  · exact takesFail _

theorem takesCast (target source : Ty) : Takes 0 (cast target source) := by
  unfold cast
  split
  · exact takesPure ()
  split
  · exact takesBox source
  split
  · exact takesOps _
  split
  · exact (takesCheckCast _ _).bind fun _ => takesOps _
  · exact takesCheckCast _ _

theorem takesDowncast (t : Ty) : Takes 0 (downcast t) := by
  unfold downcast
  split
  · exact takesPure ()
  split
  · exact takesOp _
  · exact takesPure ()

theorem takesNullTest (t : Ty) (l : Label) : Takes 0 (nullTest t l) := by
  unfold nullTest
  split
  · exact takesPure false
  · exact takesLabel.bind fun _ => (takesDup t).bind fun _ => (takesOp _).bind fun _ => (takesPop t).bind fun _ =>
      (takesOp _).bind fun _ => (takesMark _).bind fun _ => takesPure true

theorem takesCastOrNull (target source : Ty) (l : Label) : Takes 0 (castOrNull target source l) := by
  unfold castOrNull
  refine takesIf (takesNullTest _ _) (takesIf (takesIf ((takesBox _).then fun _ => takesPure _) (takesNullTest _ _)) ?_)
  split
  · exact (takesNullTest _ _).then fun _ => (takesOps _).then fun _ => takesPure _
  · exact (takesNullTest _ _).then fun _ => (takesCast _ _).then fun _ => takesPure _

theorem takesTestFalse (t : Ty) (l : Label) : Takes 0 (testFalse t l) := by
  unfold testFalse
  split
  · exact takesFail _
  · next p _ =>
    have last : Takes 0 (do
        if p.num != .int then
          op (.const (zero p.num))
          op (.cmp p.num)
        op (.ifZero .eq l)) :=
      takesIf ((takesOp _).then fun _ => (takesOp _).then fun _ => takesOp _) (takesOp _)
    exact takesIf ((takesCastOrNull _ _ _).then fun _ => last) last

theorem takesRead (l : Local) : Takes 0 l.read.generate := (takesSlotOf l).then fun _ => takesLoad _ _

theorem takesReturn {x : Expr} (takes : Takes n x.generate) (t : Ty) : Takes n (Seq.ret x t) :=
  (takes.bind fun _ => takesCast t x.type).bind fun _ => takesOp _

theorem takesSwitch (cases : List (String × Label)) (default : Label) : Takes 1 (stringSwitch cases default) :=
  (takesTemp 1).bind fun _ => takesLabel.bind fun _ => (takesOps _).bind fun _ => (takesMark _).bind fun _ =>
    (takesOps _).bind fun _ => (takesLabels _).bind fun _ => (takesOp _).bind fun _ => takesFor fun _ _ =>
      (takesMark _).bind fun _ => (takesFor fun _ _ => takesOps _).bind fun _ => takesOp _

end Emit

namespace MethodDraft

variable {m : MethodDraft} {fs : Frames} {body : Seq} {n : Nat}

theorem withBodyFrame (m : MethodDraft) (body : Seq) : (m.withBody body).frame = m.frame := rfl

theorem exitLocals (f : FrameId) (fs : Frames) (e : Emitter) : (Emit.exitFrame f fs e).2.maxLocals = e.maxLocals := by
  rw [Emit.exitIs]
  split
  · rfl
  · split <;> rfl

theorem closingLocals (f : FrameId) (generated : Option Error) (fs : Frames) (e : Emitter) :
    ((match generated with
      | none => Emit.exitFrame f
      | some err => do
        tryCatch (Emit.exitFrame f) fun _ => return ()
        throw err : Emit Unit) fs e).2.maxLocals = e.maxLocals := by
  cases generated with
  | none => exact exitLocals f fs e
  | some err =>
    have kept := exitLocals f fs e
    rcases exited : Emit.exitFrame f fs e with ⟨err' | ⟨⟩, e'⟩
    · rw [exited] at kept
      dsimp only
      have quiet : tryCatch (Emit.exitFrame f) (fun _ => return ()) fs e = (.ok (), e') := Emit.tryError exited
      rw [Emit.bindOk quiet]
      exact kept
    · rw [exited] at kept
      dsimp only
      rw [Emit.bindOk (Emit.tryOk exited)]
      exact kept

theorem slotsWithin (is : m.body = some body) (takes : Emit.Takes n body) (fs : Frames) :
    m.slots fs ≤ (Slots.body fs m.frame).next + n := by
  let inner : Emit (Option Error) := do
    body
    if m.returns.isVoid then Emit.op (.ret 0)
    return none
  have closed : Emit.Takes 0 (do
      if m.returns.isVoid then Emit.op (.ret 0)
      return none : Emit (Option Error)) := by
    split
    · exact (Emit.takesOp _).bind fun _ => Emit.takesPure none
    · exact (Emit.takesPure ()).bind fun _ => Emit.takesPure none
  have within : (inner fs (entered fs m.frame)).2.maxLocals ≤ (Slots.body fs m.frame).next + n :=
    Nat.le_trans ((takes.bind fun _ => closed) fs (entered fs m.frame)).2
      (Nat.max_le.2 ⟨Nat.le_trans (Nat.max_le.2 ⟨Nat.zero_le _, Nat.le_refl _⟩) (Nat.le_add_right _ _), Nat.le_refl _⟩)
  rw [slotsIs is]
  refine Nat.le_trans (Nat.le_of_eq ?_) within
  unfold emission
  rw [Emit.bindOk (show Emit.enterFrame m.frame fs .empty = (.ok (), entered fs m.frame) from rfl)]
  rcases answer : inner fs (entered fs m.frame) with ⟨err | made, e⟩
  · have caught : tryCatch inner (fun err => return some err) fs (entered fs m.frame) = (.ok (some err), e) :=
      Emit.tryError answer
    rw [Emit.bindOk caught]
    exact closingLocals m.frame (some err) fs e
  · rw [Emit.bindOk (Emit.tryOk answer)]
    exact closingLocals m.frame made fs e

theorem layoutStop (next : Nat) (ts : List Ty) : (Emit.layout next ts).2 = next + (ts.map fun t => max t.width 1).sum := by
  induction ts generalizing next with
  | nil => rfl
  | cons t ts ih =>
    rw [List.map_cons, List.sum_cons, ← Nat.add_assoc]
    exact ih _

theorem bodyNext {ts : List Ty} {f : FrameId} (locals : (fs.frame f).locals.map (·.2) = ts) :
    (Slots.body fs f).next = (ts.map fun t => max t.width 1).sum := by
  change (Emit.layout 0 ((fs.frame f).locals.map (·.2))).2 = _
  rw [locals, layoutStop, Nat.zero_add]

theorem fitsFrame {ts : List Ty} (is : m.body = some body) (takes : Emit.Takes n body)
    (locals : (fs.frame m.frame).locals.map (·.2) = ts)
    (few : (ts.map fun t => max t.width 1).sum + n ≤ Emitter.slotLimit) : m.Fits fs := by
  have within := slotsWithin is takes fs
  rw [bodyNext locals] at within
  exact Nat.le_trans within few

theorem narrowSlots {ts : List Ty} (narrow : ∀ t ∈ ts, t.width ≤ 1) : (ts.map fun t => max t.width 1).sum = ts.length := by
  induction ts with
  | nil => rfl
  | cons t ts ih =>
    rw [List.forall_mem_cons] at narrow
    rw [List.map_cons, List.sum_cons, ih narrow.2, Nat.max_eq_right narrow.1, List.length_cons, Nat.add_comm]

theorem fitsBody {knows : String → Prop} {Γ : Frames → Slots → Prop} {K : Slots → Asm → List Handler → Prop}
    (is : m.body = some body) (fills : body.Fills (fun _ => False) knows Γ m.returns.width K)
    (visible : Γ fs (Slots.body fs m.frame)) (fits : m.Fits fs) : (Slots.body fs m.frame).next ≤ Emitter.slotLimit := by
  have made := rendered is fills visible .empty false
  cases answer : m.render fs .empty false with
  | error f =>
    rw [answer] at made
    exact absurd fits (made.resolve_left id).2
  | ok method =>
    rw [answer] at made
    obtain ⟨_, _, _, _, _, room⟩ := made
    obtain ⟨_, e, _, known, emitted, _, _, rfl⟩ := renderFrom answer
    refine Nat.le_trans room ?_
    unfold Fits at fits
    rwa [slotsIs known, emitted] at fits

end MethodDraft

namespace Struct

open Emit

variable {cls : String} {fields : List (String × Ty)} {type : Ty} {made fs : Frames}

theorem constructorTakes (cls : String) (fields : List (String × Ty)) (args : List Local) :
    Takes 0 (constructorBody cls fields args) :=
  (takesOp _).bind fun _ => (takesFor fun _ _ => (takesOp _).bind fun _ => (takesSlotOf _).bind fun _ =>
    (takesLoad _ _).bind fun _ => takesOp _).bind fun _ => takesOp _

theorem dispatchTakes (name : Local) (fields : List (String × Ty)) {found : String × Ty → Emit Unit}
    (each : ∀ f, Takes 0 (found f)) : Takes 1 (dispatch name fields found) :=
  (takesSlotOf _).bind fun _ => takesLabel.bind fun _ => (takesLabels _).bind fun _ => (takesOp _).bind fun _ =>
    (takesSwitch _ _).bind fun _ => (takesFor fun _ _ => (takesMark _).bind fun _ => each _).bind fun _ =>
      (takesMark _).bind fun _ => takesOps _

theorem getterTakes (cls : String) (fields : List (String × Ty)) (this name : Local) :
    Takes 1 (getterBody cls fields this name) :=
  (takesSlotOf _).bind fun _ => dispatchTakes _ _ fun _ => (takesOps _).bind fun _ => (takesBox _).bind fun _ => takesOp _

theorem setterTakes (cls : String) (fields : List (String × Ty)) (this name value : Local) :
    Takes 1 (setterBody cls fields this name value) := by
  refine (takesSlotOf _).bind fun _ => (takesSlotOf _).bind fun _ => dispatchTakes _ _ fun f => ?_
  refine Takes.bind (n := 0) (k := 0) (takesOps _) fun _ => ?_
  dsimp only
  split
  · exact (takesCast _ _).bind fun _ => takesOps _
  · exact (takesDowncast _).bind fun _ => takesOps _

theorem namesTakes (fields : List (String × Ty)) : Takes 0 (namesBody fields) :=
  (takesOp _).bind fun _ => (takesFor fun _ _ => takesOps _).bind fun _ => takesOp _

theorem constructorBeyond (sized : ∀ f ∈ fields, f.2 ≠ .void) (reference : type.width = 1)
    (grows : (unit cls fields type made).2.Grows fs)
    (fits : ((newDraft cls fields type made).1.withBody
      (constructorBody cls fields (newDraft cls fields type made).1.locals)).Fits fs) :
    (Slots.body fs (newDraft cls fields type made).1.frame).next ≤ Emitter.slotLimit := by
  have typed : ∀ x ∈ fields.zip (newDraft cls fields type made).1.locals, x.2.type = x.1.2 := by
    intro x inside
    exact (congrArg Prod.snd (zipSelf (newCreated cls fields type made).locals inside)).symm
  have fills : (constructorBody cls fields (newDraft cls fields type made).1.locals).Fills (fun _ => False) (fun _ => True)
      (Placed (newDraft cls fields type made).1.locals) type.width fun _ _ hs => True ∧ hs = [] :=
    reference ▸ constructorFills trivial sized typed
  have later : (framesNew cls fields type made).Grows fs :=
    ((getCreated cls fields type made).grows.trans
      ((putCreated cls fields type made).grows.trans (namesCreated cls fields type made).grows)).trans grows
  exact MethodDraft.fitsBody (m := (newDraft cls fields type made).1.withBody
    (constructorBody cls fields (newDraft cls fields type made).1.locals)) rfl fills
    (placedLater (newCreated cls fields type made) later) fits

theorem createdBelow {made made' : Frames} {receiver : Option Ty} {params : List (String × Ty)} {m : MethodDraft}
    (created : MethodDraft.Created made receiver params m made') : m.frame < made'.table.size := by
  rw [created.frame, created.size]
  exact Nat.lt_succ_self _

variable (cls fields type made) in
theorem unitKeeps :
    (unit cls fields type made).2.frame (newDraft cls fields type made).1.frame =
      (framesNew cls fields type made).frame (newDraft cls fields type made).1.frame ∧
    (unit cls fields type made).2.frame (getDraft cls type (framesNew cls fields type made)).1.frame =
      (framesGet cls fields type made).frame (getDraft cls type (framesNew cls fields type made)).1.frame ∧
    (unit cls fields type made).2.frame (putDraft cls type (framesGet cls fields type made)).1.frame =
      (framesPut cls fields type made).frame (putDraft cls type (framesGet cls fields type made)).1.frame ∧
    (unit cls fields type made).2.frame (namesDraft cls type (framesPut cls fields type made)).1.frame =
      (framesNames cls fields type made).frame (namesDraft cls type (framesPut cls fields type made)).1.frame := by
  have get := getCreated cls fields type made
  have put := putCreated cls fields type made
  have names := namesCreated cls fields type made
  have lowNew := createdBelow (newCreated cls fields type made)
  have lowGet := createdBelow get
  have lowNew' := Nat.lt_of_lt_of_le lowNew get.grows.more
  rw [unitFrames]
  refine ⟨?_, ?_, names.older _ (createdBelow put), rfl⟩
  · rw [names.older _ (Nat.lt_of_lt_of_le lowNew' put.grows.more), put.older _ lowNew', get.older _ lowNew]
  · rw [names.older _ (Nat.lt_of_lt_of_le lowGet put.grows.more), put.older _ lowGet]

theorem createdFits {made made' : Frames} {receiver : Option Ty} {params : List (String × Ty)} {m : MethodDraft} {body : Seq}
    {n : Nat} (created : MethodDraft.Created made receiver params m made') (same : fs.frame m.frame = made'.frame m.frame)
    (takes : Takes n body) (few : ((receiver.toList.map (·.nonNull) ++ params.map (·.2)).map fun t => max t.width 1).sum + n ≤
      Emitter.slotLimit) : (m.withBody body).Fits fs := by
  have locals : (fs.frame m.frame).locals.map (·.2) = receiver.toList.map (·.nonNull) ++ params.map (·.2) := by
    rw [same]
    exact created.whole
  exact MethodDraft.fitsFrame (m := m.withBody body) rfl takes locals few

theorem accessorFew (narrow : type.nonNull.width ≤ 1) {params : List (String × Ty)} (atoms : ∀ p ∈ params, p.2.width ≤ 1)
    {n : Nat} (few : 1 + params.length + n ≤ 8) :
    (((some type).toList.map (·.nonNull) ++ params.map (·.2)).map fun t => max t.width 1).sum + n ≤ Emitter.slotLimit := by
  have thin : ∀ t ∈ (some type).toList.map (·.nonNull) ++ params.map (·.2), t.width ≤ 1 := by
    intro t inside
    rw [Option.toList_some, List.map_singleton, List.singleton_append, List.mem_cons] at inside
    obtain rfl | param := inside
    · exact narrow
    · obtain ⟨p, member, rfl⟩ := List.mem_map.1 param
      exact atoms p member
  have length : ((some type).toList.map (·.nonNull) ++ params.map (·.2)).length = 1 + params.length := by
    rw [List.length_append, List.length_map, List.length_map]
    rfl
  rw [MethodDraft.narrowSlots thin, length]
  exact Nat.le_trans few (by decide)

theorem sizedSlots (sized : ∀ f ∈ fields, f.2 ≠ .void) :
    ((fields.map (·.2)).map fun t => max t.width 1).sum = (fields.map fun f => f.2.width).sum := by
  rw [List.map_map]
  exact congrArg List.sum (List.map_congr_left fun f inside => Nat.max_eq_left (Ty.widthPos (sized f inside)))

theorem unitFits (sized : ∀ f ∈ fields, f.2 ≠ .void) (reference : type.width = 1) (narrow : type.nonNull.width ≤ 1)
    (grows : (unit cls fields type made).2.Grows fs)
    (own : ∀ m ∈ (unit cls fields type made).1.methods, fs.frame m.frame = (unit cls fields type made).2.frame m.frame) :
    (unit cls fields type made).1.Fits fs ↔ (fields.map fun f => f.2.width).sum ≤ Emitter.slotLimit := by
  obtain ⟨keepsNew, keepsGet, keepsPut, keepsNames⟩ := unitKeeps cls fields type made
  obtain ⟨this, key, this', key', value, _, _, drafts⟩ := unitMethods cls fields type made
  unfold UnitDraft.Fits
  rw [drafts] at own ⊢
  simp only [List.forall_mem_cons, List.not_mem_nil, false_implies, implies_true, and_true, MethodDraft.withBodyFrame] at own ⊢
  obtain ⟨ownNew, ownGet, ownPut, ownNames⟩ := own
  have sum := sizedSlots sized
  constructor
  · rintro ⟨fits, _⟩
    have room := constructorBeyond sized reference grows fits
    have same : (fs.frame (newDraft cls fields type made).1.frame).locals.map (·.2) = fields.map (·.2) := by
      rw [ownNew, keepsNew]
      exact (newCreated cls fields type made).whole
    rw [MethodDraft.bodyNext same, sum] at room
    exact room
  · intro few
    refine ⟨?_, ?_, ?_, ?_⟩
    · exact createdFits (newCreated cls fields type made) (ownNew.trans keepsNew) (constructorTakes _ _ _)
        (Nat.le_trans (Nat.le_of_eq sum) few)
    · exact createdFits (getCreated cls fields type made) (ownGet.trans keepsGet) (getterTakes _ _ _ _)
        (accessorFew narrow (by decide) (by decide))
    · exact createdFits (putCreated cls fields type made) (ownPut.trans keepsPut) (setterTakes _ _ _ _ _)
        (accessorFew narrow (by decide) (by decide))
    · exact createdFits (namesCreated cls fields type made) (ownNames.trans keepsNames) (namesTakes _)
        (accessorFew narrow (List.forall_mem_nil _) (by decide))

end Struct

end QueryMachine
