import QueryMachine.Proofs.Code.Writing
import QueryMachine.Proofs.Machine.Course

/-! What emission adds to the code before it, wherever it starts: operations, places of labels, regions. Nothing is said
of depths, so code that leaves for labels of others can be followed too. -/
namespace QueryMachine

open Emit (Out)

structure Emitter.Grown (e₀ e : Emitter) (σ : Slots) (A : Asm) (hs : List Handler) (W : Label → Prop) : Prop where
  ops : e.ops.toList = e₀.ops.toList ++ A.ops
  more : e₀.labels.size ≤ e.labels.size
  old : ∀ l, l < e₀.labels.size → e.labels[l]? = e₀.labels[l]?
  waiting : ∀ l, W l → e₀.labels.size ≤ l ∧ e.labels[l]? = some none
  placed : ∀ l p, (l, p) ∈ A.marks e₀.ops.size → e.labels[l]? = some (some p)
  handlers : e.handlers = e₀.handlers ++ hs
  slots : e.slots = σ
  room : e₀.nextSlot ≤ e₀.maxLocals → σ.next ≤ e.maxLocals
  locals : e₀.maxLocals ≤ e.maxLocals

/-- A method in which an emission has gone on: what was written is there, and where. -/
structure Method.Continues (m : Method) (e : Emitter) : Prop where
  ops : e.ops.toList <+: m.ops.toList
  places : ∀ l p, e.labels[l]? = some (some p) → m.position l = p
  handlers : e.handlers <+: m.handlers
  locals : e.maxLocals ≤ m.maxLocals

theorem Method.Written.continues {m : Method} {ref : MethodRef} {e : Emitter} (written : m.Written ref e) : m.Continues e where
  ops := written.ops ▸ List.prefix_refl _
  places l p is := by
    have at_ : m.labels[l]? = some p := by
      rw [← Array.getElem?_toList, written.labels, List.getElem?_map, Array.getElem?_toList, is]
      rfl
    rw [Method.position, Array.getD_eq_getD_getElem?, at_]
    rfl
  handlers := written.handlers ▸ List.prefix_refl _
  locals := Nat.le_of_eq written.maxLocals.symm

namespace Emitter.Grown

variable {e₀ e e' : Emitter} {σ σ' : Slots} {A B : Asm} {hs hs' : List Handler} {W : Label → Prop} {m : Method}

theorem start (e : Emitter) : Grown e e e.slots [] [] fun _ => False where
  ops := (List.append_nil _).symm
  more := Nat.le_refl _
  old _ _ := rfl
  waiting _ none := none.elim
  placed _ _ marked := by simp at marked
  handlers := (List.append_nil _).symm
  slots := rfl
  room := id
  locals := Nat.le_refl _

theorem fewer {W' : Label → Prop} (grown : Grown e₀ e σ A hs W) (less : ∀ l, W' l → W l) : Grown e₀ e σ A hs W' :=
  { grown with waiting := fun l waits => grown.waiting l (less l waits) }

theorem size (grown : Grown e₀ e σ A hs W) : e.ops.size = e₀.ops.size + A.ops.length := by
  have := congrArg List.length grown.ops
  simpa using this

theorem append (grown : Grown e₀ e σ A hs W) (part : Grown e e' σ' B hs' fun _ => False) :
    Grown e₀ e' σ' (A ++ B) (hs ++ hs') W where
  ops := by simp [part.ops, grown.ops]
  more := Nat.le_trans grown.more part.more
  old l low := by rw [part.old l (Nat.lt_of_lt_of_le low grown.more), grown.old l low]
  waiting l waits := by
    obtain ⟨low, is⟩ := grown.waiting l waits
    rw [part.old l (Array.getElem?_eq_some_iff.1 is).1]
    exact ⟨low, is⟩
  placed l p marked := by
    rw [Asm.marksAppend, ← grown.size, List.mem_append] at marked
    rcases marked with before | after
    · have is := grown.placed l p before
      rw [part.old l (Array.getElem?_eq_some_iff.1 is).1]
      exact is
    · exact part.placed l p after
  handlers := by rw [part.handlers, grown.handlers, List.append_assoc]
  slots := part.slots
  room fits := by
    refine part.room ?_
    have fits := grown.room fits
    rwa [← grown.slots] at fits
  locals := Nat.le_trans grown.locals part.locals

theorem continues (grown : Grown e₀ e σ A hs W) (goes : m.Continues e) : m.Continues e₀ where
  ops := (grown.ops ▸ List.prefix_append _ _).trans goes.ops
  places l p is := by
    refine goes.places l p ?_
    rw [grown.old l (Array.getElem?_eq_some_iff.1 is).1]
    exact is
  handlers := (grown.handlers ▸ List.prefix_append _ _).trans goes.handlers
  locals := Nat.le_trans grown.locals goes.locals

theorem spans (grown : Grown e₀ e σ A hs W) (goes : m.Continues e) : m.Spans e₀.ops.size A e.ops.size := by
  rw [grown.size]
  refine Method.spansOf ?_ fun l p marked => goes.places l p (grown.placed l p marked)
  intro i o at_
  obtain ⟨later, all⟩ := goes.ops
  rw [← Array.getElem?_toList, ← all, grown.ops, List.append_assoc]
  rw [List.getElem?_append_right (by simp), Array.length_toList, Nat.add_sub_cancel_left,
    List.getElem?_append_left (List.getElem?_eq_some_iff.1 at_).1]
  exact at_

section Steps

variable {E : Error → Prop} {fs : Frames} {Q : Unit → Emitter → Prop}

theorem outOp {o : Op} (grown : Grown e₀ e σ A hs W) (next : ∀ e', Grown e₀ e' σ (A ++ [.op o]) hs W → Q () e') :
    Out (Emit.op o) fs e E Q := by
  refine next _ { grown with ops := ?_, placed := ?_ }
  · rw [Array.toList_push, grown.ops, Asm.opsAppend, List.append_assoc]
    rfl
  · intro l p marked
    exact grown.placed l p (by simpa using marked)

theorem outOps {os : List Op} (grown : Grown e₀ e σ A hs W)
    (next : ∀ e', Grown e₀ e' σ (A ++ os.map .op) hs W → Q () e') : Out (Emit.ops os) fs e E Q := by
  induction os generalizing e A with
  | nil =>
    rw [Emit.opsNil]
    exact next e (by simpa using grown)
  | cons o os ih =>
    rw [Emit.opsCons, Emit.outBind]
    refine grown.outOp ?_
    intro e' grown
    exact ih grown fun e'' grown => next e'' (by simpa using grown)

theorem outLabel {Q : Label → Emitter → Prop} (grown : Grown e₀ e σ A hs W)
    (next : ∀ l e', ¬ W l → Grown e₀ e' σ A hs (fun x => x = l ∨ W x) → Q l e') : Out Emit.newLabel fs e E Q := by
  have fresh : ¬ W e.labels.size := fun waits =>
    Nat.lt_irrefl _ (Array.getElem?_eq_some_iff.1 (grown.waiting _ waits).2).1
  have kept : ∀ (l : Nat) x, e.labels[l]? = some x → (e.labels.push none)[l]? = some x := by
    intro l x is
    rw [Array.getElem?_push, if_neg (Nat.ne_of_lt (Array.getElem?_eq_some_iff.1 is).1)]
    exact is
  refine next _ { e with labels := e.labels.push none } fresh
    { grown with more := ?_, old := ?_, waiting := ?_, placed := ?_ }
  · rw [Array.size_push]
    exact Nat.le_succ_of_le grown.more
  · intro l low
    rw [Array.getElem?_push, if_neg (Nat.ne_of_lt (Nat.lt_of_lt_of_le low grown.more))]
    exact grown.old l low
  · rintro l (rfl | waits)
    · exact ⟨grown.more, Array.getElem?_push_size⟩
    · obtain ⟨low, is⟩ := grown.waiting l waits
      exact ⟨low, kept l _ is⟩
  · exact fun l p marked => kept l _ (grown.placed l p marked)

theorem outLabels {Q : List Label → Emitter → Prop} (k : Nat) (grown : Grown e₀ e σ A hs W)
    (next : ∀ made e', made.length = k → made.Nodup → (∀ l ∈ made, ¬ W l) →
      Grown e₀ e' σ A hs (fun x => x ∈ made ∨ W x) → Q made e') : Out (Emit.newLabels k) fs e E Q := by
  refine Emit.outLabels (P := fun made e => Emit.Fresh W made ∧ Grown e₀ e σ A hs (fun x => x ∈ made ∨ W x)) k ?_ ?_ ?_
  · exact ⟨Emit.freshNone W, grown.fewer fun l waits => waits.resolve_left List.not_mem_nil⟩
  · intro made e ⟨fresh, grown⟩
    exact grown.outLabel fun l e' new grown => ⟨fresh.add new, grown.fewer fun x => Emit.waitsNew.2⟩
  · exact fun made e' length ⟨fresh, grown⟩ => next made e' length fresh.distinct fresh.apart grown

theorem outMark {l : Label} (grown : Grown e₀ e σ A hs W) (waits : W l)
    (next : ∀ e', Grown e₀ e' σ (A ++ [.mark l]) hs (fun x => W x ∧ x ≠ l) → Q () e') : Out (Emit.mark l) fs e E Q := by
  obtain ⟨own, unbound⟩ := grown.waiting l waits
  have high := (Array.getElem?_eq_some_iff.1 unbound).1
  have kept : ∀ x, x ≠ l → (e.labels.setIfInBounds l (some e.ops.size))[x]? = e.labels[x]? :=
    fun x other => Array.getElem?_setIfInBounds_ne (Ne.symm other)
  refine next _ { grown with ops := ?_, more := ?_, old := ?_, waiting := ?_, placed := ?_ }
  · rw [Asm.opsAppend]
    exact grown.ops.trans (by simp)
  · rw [Array.size_setIfInBounds]
    exact grown.more
  · intro x low
    exact (kept x (Nat.ne_of_lt (Nat.lt_of_lt_of_le low own))).trans (grown.old x low)
  · rintro x ⟨waits, other⟩
    obtain ⟨low, is⟩ := grown.waiting x waits
    exact ⟨low, (kept x other).trans is⟩
  · intro x p marked
    rw [Asm.marksAppend, List.mem_append] at marked
    rcases marked with before | here
    · have is := grown.placed x p before
      have other : x ≠ l := by
        rintro rfl
        rw [unbound] at is
        cases is
      exact (kept x other).trans is
    · obtain ⟨rfl, rfl⟩ := Prod.mk.inj (List.mem_singleton.1 here)
      rw [Array.getElem?_setIfInBounds_self_of_lt high, grown.size]

theorem outForM {ι : Type} {f : ι → Emit Unit} {g : ι → Asm} {items : List ι}
    (each : ∀ i ∈ items, ∀ e A (Q : Unit → Emitter → Prop), Grown e₀ e σ A hs W →
      (∀ e', Grown e₀ e' σ (A ++ g i) hs W → Q () e') → Out (f i) fs e E Q)
    (grown : Grown e₀ e σ A hs W) (next : ∀ e', Grown e₀ e' σ (A ++ items.flatMap g) hs W → Q () e') :
    Out (items.forM f) fs e E Q := by
  induction items generalizing e A with
  | nil => exact next e (by simpa using grown)
  | cons i is ih =>
    rw [Emit.forMCons, Emit.outBind]
    refine each i List.mem_cons_self e A _ grown ?_
    intro e₁ grown
    refine ih (fun j inside => each j (List.mem_cons_of_mem i inside)) grown ?_
    intro e₂ grown
    exact next e₂ (by simpa using grown)

theorem outSlot {Q : Nat → Emitter → Prop} {l : Local} {s : Nat} (grown : Grown e₀ e σ A hs W) (found : σ.find? l = some s)
    (next : Q s e) : Out (Emit.slotOf l) fs e E Q := by
  have here : e.active.findSome? (fun a => if a.frame = l.frame then a.slots[l.index]? else none) = some s := by
    rw [← grown.slots] at found
    exact found
  unfold Emit.slotOf
  rw [Emit.outBind, Emit.outGet, here]
  exact next

theorem outTemp {Q : Nat → Emitter → Prop} {width : Nat} (grown : Grown e₀ e σ A hs W)
    (next : ∀ e', Grown e₀ e' (σ.temp width) A hs W → σ.next + max width 1 ≤ e'.maxLocals → Q σ.next e') :
    Out (Emit.newTemp width) fs e E Q := by
  have same := grown.slots
  have start : e.nextSlot = σ.next := congrArg Slots.next same
  unfold Emit.newTemp
  simp only [Emit.outBind, Emit.outGet, Emit.outSet, Emit.outPure]
  rw [start]
  refine next _ { grown with slots := ?_, room := fun _ => Nat.le_max_right _ _, locals := ?_ } (Nat.le_max_right _ _)
  · rw [← same]
    rfl
  · exact Nat.le_trans grown.locals (Nat.le_max_left _ _)

theorem outRegion {start stop target : Label} {k : Catch} (grown : Grown e₀ e σ A hs W)
    (next : ∀ e', Grown e₀ e' σ A (hs ++ [⟨start, stop, target, k⟩]) W → Q () e') :
    Out (Emit.region start stop target k) fs e E Q := by
  refine next _ { grown with handlers := ?_ }
  show e.handlers ++ [⟨start, stop, target, k⟩] = _
  rw [grown.handlers, List.append_assoc]

theorem outRegions {start stop target : Label} (filters : List Catch) (grown : Grown e₀ e σ A hs W)
    (next : ∀ e', Grown e₀ e' σ A (hs ++ filters.map (Handler.mk start stop target)) W → Q () e') :
    Out (filters.forM (Emit.region start stop target)) fs e E Q := by
  induction filters generalizing e hs with
  | nil => exact next e (by simpa using grown)
  | cons k ks ih =>
    rw [Emit.forMCons, Emit.outBind]
    refine grown.outRegion ?_
    intro e₁ grown
    refine ih grown ?_
    intro e₂ grown
    exact next e₂ (by simpa using grown)

theorem outEnter {f : FrameId} (grown : Grown e₀ e σ A hs W)
    (next : ∀ e', Grown e₀ e' (σ.enter f ((fs.frame f).locals.map (·.2))) A hs W → Q () e') :
    Out (Emit.enterFrame f) fs e E Q := by
  have same := grown.slots
  refine next _ { grown with slots := ?_, room := fun _ => ?_, locals := ?_ }
  · rw [← same]
    rfl
  · rw [← same]
    exact Nat.le_max_right _ _
  · exact Nat.le_trans grown.locals (Nat.le_max_left _ _)

theorem outExit {f : FrameId} {τ : Slots} {slots : List Nat} (grown : Grown e₀ e τ A hs W)
    (active : τ.active = ⟨f, σ.next, slots⟩ :: σ.active) (later : σ.next ≤ τ.next)
    (next : ∀ e', e.maxLocals ≤ e'.maxLocals → Grown e₀ e' σ A hs W → Q () e') : Out (Emit.exitFrame f) fs e E Q := by
  have here : e.active = ⟨f, σ.next, slots⟩ :: σ.active := by
    rw [← active, ← grown.slots]
    rfl
  unfold Emit.exitFrame
  rw [Emit.outBind, Emit.outGet, here]
  simp only [if_true, Emit.outSet]
  exact next _ (Nat.le_refl _) { grown with slots := rfl, room := fun fits => Nat.le_trans later (grown.room fits) }

end Steps

end Emitter.Grown

end QueryMachine
