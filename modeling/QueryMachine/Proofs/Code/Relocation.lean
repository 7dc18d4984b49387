import Mathlib.Data.List.Forall2
import QueryMachine.Code.Fragment
import QueryMachine.Proofs.Code.Walk

/-! Code is the same wherever its labels start. Emission after some labels have been made writes what it writes without
them, with its own labels moved up, and it writes confined operations only: those that stay in the method and call no
method of the unit it is in. -/
namespace QueryMachine

def Op.Confined (host : String) (returns : Prop) : Op → Prop
  | .ret _ => returns
  | .invoke _ | .function _ | .native .promiseThen => False
  | .new cls => cls ≠ host
  | _ => True

namespace Handler

def relocate (n : Nat) (h : Handler) : Handler := ⟨h.start + n, h.stop + n, h.target + n, h.filter⟩

end Handler

namespace Emitter

def relocate (before : Array (Option Nat)) (e : Emitter) : Emitter :=
  { e with
    ops := e.ops.map (Op.relabel (· + before.size))
    labels := before ++ e.labels
    handlers := e.handlers.map (Handler.relocate before.size) }

structure Tidy (host : String) (returns : Prop) (e : Emitter) : Prop where
  ops : ∀ o ∈ e.ops, o.Confined host returns
  placed : ∀ l p : Nat, e.labels[l]? = some (some p) → p ≤ e.ops.size

end Emitter

namespace Emit

variable {host : String} {returns : Prop} {before : Array (Option Nat)} {α β γ δ : Type}

def Moves (host : String) (returns : Prop) (before : Array (Option Nat)) (R : α → β → Prop) (x : Emit α) (y : Emit β) :
    Prop :=
  ∀ fs e a e', e.Tidy host returns → x fs e = (.ok a, e') →
    e'.Tidy host returns ∧ ∃ b, R a b ∧ y fs (e.relocate before) = (.ok b, e'.relocate before)

abbrev Floats (host : String) (returns : Prop) (before : Array (Option Nat)) (x : Emit α) : Prop :=
  Moves host returns before Eq x x

section

variable {R : α → β → Prop} {S : γ → δ → Prop} {x : Emit α} {y : Emit β}

theorem movesPure {a : α} {b : β} (same : R a b) : Moves host returns before R (pure a) (pure b) := by
  rintro fs e _ _ tidy ⟨⟩
  exact ⟨tidy, b, same, rfl⟩

theorem movesFail (c : Cause) : Moves host returns before R (fail c) y := by
  rintro fs e _ _ tidy ⟨⟩

theorem Moves.bind {f : α → Emit γ} {g : β → Emit δ} (first : Moves host returns before R x y)
    (second : ∀ a b, R a b → Moves host returns before S (f a) (g b)) : Moves host returns before S (x >>= f) (y >>= g) := by
  intro fs e c e'' tidy ends
  rcases answer : x fs e with ⟨err | a, e'⟩
  · rw [bindError answer] at ends
    cases ends
  · rw [bindOk answer] at ends
    obtain ⟨tidy, b, related, moved⟩ := first fs e a e' tidy answer
    rw [bindOk moved]
    exact second a b related fs e' c e'' tidy ends

theorem Moves.andThen {x y : Emit α} {f : α → Emit γ} {g : α → Emit δ} (first : Moves host returns before Eq x y)
    (second : ∀ a, Moves host returns before S (f a) (g a)) : Moves host returns before S (x >>= f) (y >>= g) :=
  first.bind fun a _ same => same ▸ second a

theorem labelMoves : Moves host returns before (fun l m => m = l + before.size) newLabel newLabel := by
  rintro fs e _ _ tidy ⟨⟩
  refine ⟨⟨tidy.ops, ?_⟩, before.size + e.labels.size, Nat.add_comm _ _, ?_⟩
  · intro l p at_
    rw [Array.getElem?_push] at at_
    split at at_
    · cases Option.some.inj at_
    · exact tidy.placed l p at_
  · change (Except.ok (before ++ e.labels).size, _) = _
    simp [Emitter.relocate]

theorem movesLabel {f g : Label → Emit γ}
    (rest : ∀ l, Moves host returns before Eq (f l) (g (l + before.size))) :
    Moves host returns before Eq (newLabel >>= f) (newLabel >>= g) :=
  labelMoves.bind fun l _ same => same ▸ rest l

theorem movesOps (os : List Op) (confined : ∀ o ∈ os, o.Confined host returns) :
    Moves host returns before Eq (ops os) (ops (os.map (Op.relabel (· + before.size)))) := by
  rintro fs e _ _ tidy ⟨⟩
  refine ⟨⟨?_, ?_⟩, (), rfl, ?_⟩
  · intro o inside
    rcases Array.mem_append.1 inside with old | new
    · exact tidy.ops o old
    · exact confined o (List.mem_toArray.1 new)
  · intro l p at_
    refine Nat.le_trans (tidy.placed l p at_) ?_
    simp
  · change (Except.ok (), _) = _
    simp [Emitter.relocate]

theorem movesOp {o : Op} (confined : o.Confined host returns) :
    Moves host returns before Eq (op o) (op (o.relabel (· + before.size))) := by
  rintro fs e _ _ tidy ⟨⟩
  refine ⟨⟨?_, ?_⟩, (), rfl, ?_⟩
  · intro o' inside
    rcases Array.mem_push.1 inside with old | rfl
    · exact tidy.ops o' old
    · exact confined
  · intro l p at_
    refine Nat.le_trans (tidy.placed l p at_) ?_
    simp
  · change (Except.ok (), _) = _
    simp [Emitter.relocate]

theorem movesMark (l : Label) : Moves host returns before Eq (mark l) (mark (l + before.size)) := by
  rintro fs e _ _ tidy ⟨⟩
  refine ⟨⟨tidy.ops, ?_⟩, (), rfl, ?_⟩
  · intro k p at_
    dsimp only at at_ ⊢
    rw [Array.getElem?_setIfInBounds] at at_
    split at at_
    · split at at_
      · cases at_
        exact Nat.le_refl _
      · contradiction
    · exact tidy.placed k p at_
  · change (Except.ok (), _) = _
    simp [Emitter.relocate]

theorem movesJump (l : Label) : Moves host returns before Eq (jump l) (jump (l + before.size)) :=
  movesOp (o := .jump l) trivial

theorem movesSlots {x : Emit α} (alone : ∀ fs e e' a, x fs e = (.ok a, e') →
    e'.ops = e.ops ∧ e'.labels = e.labels ∧ x fs (e.relocate before) = (.ok a, e'.relocate before)) :
    Floats host returns before x := by
  intro fs e a e' tidy ends
  obtain ⟨ops, labels, moved⟩ := alone fs e e' a ends
  refine ⟨⟨?_, ?_⟩, a, rfl, moved⟩
  · rw [ops]
    exact tidy.ops
  · rw [ops, labels]
    exact tidy.placed

theorem slotOpen (l : Local) (fs : Frames) (e : Emitter) :
    slotOf l fs e = (match e.active.findSome? fun a => if a.frame = l.frame then a.slots[l.index]? else none with
      | some s => pure s
      | none => fail (.internal ("local '" ++ l.name ++ "' used outside its scope")) : Emit Nat) fs e := rfl

theorem slotIs (l : Local) (fs : Frames) (e : Emitter) :
    slotOf l fs e = match e.active.findSome? fun a => if a.frame = l.frame then a.slots[l.index]? else none with
      | some s => (.ok s, e)
      | none => (.error (.of (.internal ("local '" ++ l.name ++ "' used outside its scope"))), e) := by
  rw [slotOpen]
  cases e.active.findSome? _ <;> rfl

theorem slotFloats (l : Local) : Floats host returns before (slotOf l) := by
  refine movesSlots fun fs e e' a ends => ?_
  have same : (e.relocate before).active = e.active := rfl
  rw [slotIs] at ends ⊢
  rw [same]
  split at ends
  · cases ends
    exact ⟨rfl, rfl, rfl⟩
  · cases ends

theorem enterFloats (f : FrameId) : Floats host returns before (enterFrame f) :=
  movesSlots fun _ _ _ _ ends => by
    cases ends
    exact ⟨rfl, rfl, rfl⟩

theorem tempFloats (width : Nat) : Floats host returns before (newTemp width) :=
  movesSlots fun _ _ _ _ ends => by
    cases ends
    exact ⟨rfl, rfl, rfl⟩

theorem exitIs (f : FrameId) (fs : Frames) (e : Emitter) : exitFrame f fs e = match e.active with
    | [] => (.error (.of (.internal "local frames exited out of order")), e)
    | a :: rest => if a.frame = f then (.ok (), { e with active := rest, nextSlot := a.base })
      else (.error (.of (.internal "local frames exited out of order")), { e with active := rest }) := by
  have read : exitFrame f fs e = (match e.active with
    | [] => fail (.internal "local frames exited out of order")
    | a :: rest => if a.frame = f then set { e with active := rest, nextSlot := a.base }
      else do
        set { e with active := rest }
        fail (.internal "local frames exited out of order") : Emit Unit) fs e := rfl
  rw [read]
  cases e.active with
  | nil => rfl
  | cons a rest =>
    by_cases same : a.frame = f
    · simp only [same, if_true]
      rfl
    · simp only [same, if_false]
      rfl

theorem exitFloats (f : FrameId) : Floats host returns before (exitFrame f) := by
  refine movesSlots fun fs e e' a ends => ?_
  have same : (e.relocate before).active = e.active := rfl
  rw [exitIs] at ends ⊢
  rw [same]
  split at ends
  · cases ends
  · next own =>
    split at ends
    · next inner =>
      cases ends
      exact ⟨rfl, rfl, if_pos inner⟩
    · cases ends

theorem forMRelated {ι κ : Type} {f : ι → Emit Unit} {g : κ → Emit Unit} {items : List ι} {others : List κ}
    (each : List.Forall₂ (fun i j => Moves host returns before Eq (f i) (g j)) items others) :
    Moves host returns before Eq (items.forM f) (others.forM g) := by
  induction each with
  | nil => exact movesPure rfl
  | cons first _ ih => exact first.andThen fun _ => ih

theorem forMMoves {ι : Type} {f g : ι → Emit Unit} {items : List ι}
    (each : ∀ i ∈ items, Moves host returns before Eq (f i) (g i)) :
    Moves host returns before Eq (items.forM f) (items.forM g) :=
  forMRelated (List.forall₂_same.2 each)

theorem relabelPlain {o : Op} (plain : o.targets = []) (f : Label → Label) : o.relabel f = o := by
  cases o <;> first | rfl | simp [Op.targets] at plain

theorem opsFloat {os : List Op} (confined : ∀ o ∈ os, o.Confined host returns ∧ o.targets = []) :
    Floats host returns before (ops os) := by
  have moves : Moves host returns before Eq (ops os) (ops (os.map (Op.relabel (· + before.size)))) :=
    movesOps os fun o inside => (confined o inside).1
  have same : os.map (Op.relabel (· + before.size)) = os := by
    rw [List.map_congr_left fun o inside => relabelPlain (confined o inside).2 _, List.map_id']
  rwa [same] at moves

theorem opFloats {o : Op} (confined : o.Confined host returns) (plain : o.targets = []) :
    Floats host returns before (op o) := by
  have moves : Moves host returns before Eq (op o) (op (o.relabel (· + before.size))) := movesOp confined
  rwa [relabelPlain plain] at moves

theorem loadFloats (slot width : Nat) : Floats host returns before (load slot width) := by
  unfold load
  split <;> exact opFloats trivial rfl

theorem storeFloats (slot width : Nat) : Floats host returns before (store slot width) := by
  unfold store
  split <;> exact opFloats trivial rfl

theorem popFloats (t : Ty) : Floats host returns before (pop t) := by
  unfold pop
  split
  · exact movesPure rfl
  · exact opFloats trivial rfl

theorem dupFloats (t : Ty) : Floats host returns before (dup t) := by
  unfold dup
  split
  · exact movesPure rfl
  · exact opFloats trivial rfl

theorem boxFloats (t : Ty) : Floats host returns before (box t) := by
  cases t with
  | prim p => exact opFloats trivial rfl
  | _ => exact movesPure rfl

theorem checkFloats (target source : Ty) : Floats host returns before (checkCast target source) := by
  unfold checkCast
  split
  · exact opFloats trivial rfl
  · exact movesFail _

theorem conversionConfined {source target : Rep} {os : List Op} (is : Conversion.ops? source target = some os) :
    ∀ o ∈ os, o.Confined host returns ∧ o.targets = [] := by
  have primitive : ∀ s t : Prim, ∀ o ∈ Conversion.primitive s t, o.Confined host returns ∧ o.targets = [] := by
    intro s t
    unfold Conversion.primitive
    repeat' split
    all_goals simp [Op.Confined, Op.targets]
  unfold Conversion.ops? at is
  split at is
  · cases is
    exact primitive _ _
  · obtain ⟨t, _, rfl⟩ := Option.map_eq_some_iff.1 is
    rw [List.forall_mem_append, List.forall_mem_singleton]
    exact ⟨primitive _ _, trivial, rfl⟩
  · obtain ⟨t, _, rfl⟩ := Option.map_eq_some_iff.1 is
    rw [List.forall_mem_cons]
    exact ⟨⟨trivial, rfl⟩, primitive _ _⟩
  · contradiction

theorem castFloats (target source : Ty) : Floats host returns before (cast target source) := by
  unfold cast
  split
  · exact movesPure rfl
  · split
    · exact boxFloats source
    · split
      · next is => exact opsFloat (conversionConfined is)
      · split
        · refine (checkFloats _ _).andThen fun _ => opsFloat ?_
          simp [Op.Confined, Op.targets]
        · exact checkFloats _ _

theorem downcastFloats (t : Ty) : Floats host returns before (downcast t) := by
  unfold downcast
  split
  · exact movesPure rfl
  · split
    · exact opFloats trivial rfl
    · exact movesPure rfl

theorem nullTestMoves (t : Ty) (l : Label) :
    Moves host returns before Eq (nullTest t l) (nullTest t (l + before.size)) := by
  unfold nullTest
  split
  · exact movesPure rfl
  · refine movesLabel fun done => (dupFloats t).andThen fun _ => ?_
    refine (movesOp (o := .ifNonNull done) trivial).andThen fun _ => (popFloats t).andThen fun _ => ?_
    exact (movesJump l).andThen fun _ => (movesMark done).andThen fun _ => movesPure rfl

theorem castOrNullMoves (target source : Ty) (l : Label) :
    Moves host returns before Eq (castOrNull target source l) (castOrNull target source (l + before.size)) := by
  unfold castOrNull
  split
  · exact nullTestMoves source l
  · split
    · split
      · exact (boxFloats source).andThen fun _ => movesPure rfl
      · exact nullTestMoves source l
    · split
      · next is =>
        refine (nullTestMoves source l).andThen fun _ => ?_
        exact (opsFloat (conversionConfined is)).andThen fun _ => movesPure rfl
      · exact (nullTestMoves source l).andThen fun _ => (castFloats target source).andThen fun _ => movesPure rfl

theorem testFalseMoves (t : Ty) (l : Label) :
    Moves host returns before Eq (testFalse t l) (testFalse t (l + before.size)) := by
  have zeroMoves : ∀ k : Num, Moves host returns before Eq
      (do
        if k != .int then
          op (.const (zero k))
          op (.cmp k)
        op (.ifZero .eq l))
      (do
        if k != .int then
          op (.const (zero k))
          op (.cmp k)
        op (.ifZero .eq (l + before.size))) := by
    intro k
    have last : Moves host returns before Eq (op (.ifZero .eq l)) (op (.ifZero .eq (l + before.size))) :=
      movesOp (o := .ifZero .eq l) trivial
    have number : Floats host returns before (op (.const (zero k))) := opFloats trivial rfl
    have compared : Floats host returns before (op (.cmp k)) := opFloats trivial rfl
    cases k with
    | int => exact last
    | _ => exact number.andThen fun _ => compared.andThen fun _ => last
  unfold testFalse
  cases t.prim? with
  | none => exact movesFail _
  | some p =>
    cases t.isPrimitive with
    | true => exact zeroMoves p.num
    | false => exact (castOrNullMoves _ _ l).andThen fun _ => zeroMoves p.num

end

/-! ### Confined code, wherever its labels are -/

def Keeps (host : String) (returns : Prop) (x : Emit α) : Prop :=
  ∀ fs e a e', e.Tidy host returns → x fs e = (.ok a, e') → e'.Tidy host returns

section

variable {x : Emit α}

theorem Moves.keeps {R : α → β → Prop} {y : Emit β} (moves : Moves host returns #[] R x y) : Keeps host returns x :=
  fun fs e a e' tidy ends => (moves fs e a e' tidy ends).1

theorem keepsPure (a : α) : Keeps host returns (pure a : Emit α) := (movesPure (R := fun _ _ => True) (b := a) trivial).keeps

theorem Keeps.bind {f : α → Emit γ} (first : Keeps host returns x) (second : ∀ a, Keeps host returns (f a)) :
    Keeps host returns (x >>= f) := by
  intro fs e c e'' tidy ends
  rcases answer : x fs e with ⟨err | a, e'⟩
  · rw [bindError answer] at ends
    cases ends
  · rw [bindOk answer] at ends
    exact second a fs e' c e'' (first fs e a e' tidy answer) ends

theorem keepsOps {os : List Op} (confined : ∀ o ∈ os, o.Confined host returns) : Keeps host returns (ops os) :=
  (movesOps _ confined).keeps

theorem keepsForM {ι : Type} {f : ι → Emit Unit} {items : List ι} (each : ∀ i ∈ items, Keeps host returns (f i)) :
    Keeps host returns (items.forM f) := by
  induction items with
  | nil => exact keepsPure ()
  | cons i is ih =>
    exact (each i List.mem_cons_self).bind fun _ => ih fun j inside => each j (List.mem_cons_of_mem i inside)

theorem keepsLabels (n : Nat) : Keeps host returns (newLabels n) := by
  unfold newLabels
  induction List.range n with
  | nil => exact keepsPure []
  | cons i is ih =>
    rw [List.mapM_cons]
    exact labelMoves.keeps.bind fun _ => ih.bind fun _ => keepsPure _

theorem keepsStringSwitch (cases : List (String × Label)) (default : Label) :
    Keeps host returns (stringSwitch cases default) := by
  unfold stringSwitch
  refine (tempFloats 1).keeps.bind fun held => labelMoves.keeps.bind fun nonNull => ?_
  refine (keepsOps (by simp [Op.Confined])).bind fun _ => (movesMark nonNull).keeps.bind fun _ => ?_
  refine (keepsOps (by simp [Op.Confined])).bind fun _ => (keepsLabels _).bind fun labels => ?_
  refine (movesOp (o := .lookup _ _) trivial).keeps.bind fun _ => keepsForM fun ⟨⟨_, entries⟩, l⟩ _ => ?_
  refine (movesMark l).keeps.bind fun _ => Keeps.bind (keepsForM fun ⟨name, target⟩ _ => ?_) fun _ =>
    (movesJump default).keeps
  exact keepsOps (by simp [Op.Confined])

end

end Emit

end QueryMachine
