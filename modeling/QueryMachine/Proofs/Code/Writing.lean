import QueryMachine.Proofs.Code.Casting
import QueryMachine.Proofs.Unit.Method
import QueryMachine.Proofs.Unit.Rendering

/-! The code of a body, whatever the verifier makes of it. Labels are numbered in the order in which they are made,
so the code can be named before it is written. -/
namespace QueryMachine

open Emit (Out)

namespace Asm

/-- Labels that are bound in code, in the order of their places. -/
def labels : Asm → List Label
  | [] => []
  | .op _ :: A => labels A
  | .mark l :: A => l :: labels A

@[simp] theorem labelsNil : labels [] = [] := rfl

@[simp] theorem labelsOp {o : Op} {A : Asm} : labels (.op o :: A) = labels A := rfl

@[simp] theorem labelsMark {l : Label} {A : Asm} : labels (.mark l :: A) = l :: labels A := rfl

@[simp] theorem labelsAppend (A B : Asm) : labels (A ++ B) = labels A ++ labels B := by
  induction A with
  | nil => rfl
  | cons item A ih => cases item <;> simp [ih]

theorem labelsMarked (A : Asm) (pc : Nat) : (A.marks pc).map (·.1) = A.labels := by
  induction A generalizing pc with
  | nil => rfl
  | cons item A ih => cases item <;> simp [ih]

end Asm

/-- An emitter that has written `A` and made `n` labels. Where no label is bound twice each is where it was bound. -/
structure Emitter.Wrote (e : Emitter) (σ : Slots) (A : Asm) (n : Nat) : Prop where
  ops : e.ops.toList = A.ops
  labels : e.labels.size = n
  placed : A.labels.Nodup → ∀ l p, (l, p) ∈ A.marks 0 → e.labels[l]? = some (some p)
  handlers : e.handlers = []
  slots : e.slots = σ
  room : σ.next ≤ e.maxLocals

namespace Emitter.Wrote

variable {E : Error → Prop} {fs : Frames} {e : Emitter} {σ : Slots} {A : Asm} {n : Nat} {Q : Unit → Emitter → Prop}

theorem outOp {o : Op} (wrote : e.Wrote σ A n) (next : ∀ e', Wrote e' σ (A ++ [.op o]) n → Q () e') :
    Out (Emit.op o) fs e E Q := by
  refine next _ ⟨?_, wrote.labels, ?_, wrote.handlers, wrote.slots, wrote.room⟩
  · rw [Array.toList_push, wrote.ops, Asm.opsAppend]
    rfl
  · intro distinct l p marked
    exact wrote.placed (by simpa using distinct) l p (by simpa using marked)

theorem outOps {os : List Op} (wrote : e.Wrote σ A n) (next : ∀ e', Wrote e' σ (A ++ os.map .op) n → Q () e') :
    Out (Emit.ops os) fs e E Q := by
  induction os generalizing e A with
  | nil =>
    rw [Emit.opsNil]
    exact next e (by simpa using wrote)
  | cons o os ih =>
    rw [Emit.opsCons, Emit.outBind]
    refine wrote.outOp ?_
    intro e' wrote
    exact ih wrote fun e'' wrote => next e'' (by simpa using wrote)

theorem outMark {l : Nat} (wrote : e.Wrote σ A n) (made : l < n)
    (next : ∀ e', Wrote e' σ (A ++ [.mark l]) n → Q () e') : Out (Emit.mark l) fs e E Q := by
  refine next _ ⟨?_, ?_, ?_, wrote.handlers, wrote.slots, wrote.room⟩
  · rw [Asm.opsAppend]
    exact wrote.ops.trans (List.append_nil _).symm
  · rw [Array.size_setIfInBounds]
    exact wrote.labels
  · intro distinct x p marked
    rw [Asm.labelsAppend, List.nodup_append] at distinct
    obtain ⟨before, _, apart⟩ := distinct
    rw [Asm.marksAppend, List.mem_append] at marked
    rcases marked with old | new
    · have bound : x ∈ A.labels := by
        rw [← Asm.labelsMarked A 0]
        exact List.mem_map_of_mem old
      have other : l ≠ x := fun same => apart x bound l List.mem_cons_self same.symm
      rw [Array.getElem?_setIfInBounds_ne other]
      exact wrote.placed before x p old
    · obtain ⟨rfl, rfl⟩ := Prod.mk.inj (List.mem_singleton.1 new)
      have low : x < e.labels.size := by rw [wrote.labels]; exact made
      rw [Array.getElem?_setIfInBounds_self_of_lt low, Nat.zero_add, ← wrote.ops, Array.length_toList]

theorem outLabel {Q : Label → Emitter → Prop} (wrote : e.Wrote σ A n) (next : ∀ e', Wrote e' σ A (n + 1) → Q n e') :
    Out Emit.newLabel fs e E Q := by
  have made : Q e.labels.size { e with labels := e.labels.push none } := by
    rw [wrote.labels]
    refine next _ ⟨wrote.ops, ?_, ?_, wrote.handlers, wrote.slots, wrote.room⟩
    · rw [Array.size_push, wrote.labels]
    · intro distinct l p marked
      have is := wrote.placed distinct l p marked
      have low := (Array.getElem?_eq_some_iff.1 is).1
      rw [Array.getElem?_push, if_neg (Nat.ne_of_lt low)]
      exact is
  exact made

theorem outLabels {Q : List Label → Emitter → Prop} (k : Nat) (wrote : e.Wrote σ A n)
    (next : ∀ e', Wrote e' σ A (n + k) → Q (List.range' n k) e') : Out (Emit.newLabels k) fs e E Q := by
  refine Emit.outLabels (P := fun made e => made = List.range' n made.length ∧ Wrote e σ A (n + made.length)) k ?_ ?_ ?_
  · exact ⟨rfl, wrote⟩
  · intro made e ⟨is, wrote⟩
    refine wrote.outLabel ?_
    intro e' wrote
    rw [List.length_append, List.length_singleton, List.range'_concat, Nat.one_mul, ← is]
    exact ⟨rfl, wrote⟩
  · rintro made e' rfl ⟨is, wrote⟩
    rw [is]
    exact next e' wrote

theorem outSlot {Q : Nat → Emitter → Prop} {l : Local} {s : Nat} (wrote : e.Wrote σ A n) (found : σ.find? l = some s)
    (next : Q s e) : Out (Emit.slotOf l) fs e E Q := by
  have here : e.active.findSome? (fun a => if a.frame = l.frame then a.slots[l.index]? else none) = some s := by
    rw [← wrote.slots] at found
    exact found
  unfold Emit.slotOf
  rw [Emit.outBind, Emit.outGet, here]
  exact next

theorem outTemp {Q : Nat → Emitter → Prop} {width : Nat} (wrote : e.Wrote σ A n)
    (next : ∀ e', Wrote e' (σ.temp width) A n → Q σ.next e') : Out (Emit.newTemp width) fs e E Q := by
  have same := wrote.slots
  have start : e.nextSlot = σ.next := congrArg Slots.next same
  unfold Emit.newTemp
  simp only [Emit.outBind, Emit.outGet, Emit.outSet, Emit.outPure]
  rw [start]
  refine next _ ⟨wrote.ops, wrote.labels, wrote.placed, wrote.handlers, ?_, Nat.le_max_right _ _⟩
  rw [← same]
  rfl

theorem outForM {ι : Type} {f : ι → Emit Unit} {g : ι → Asm} {items : List ι}
    (each : ∀ i ∈ items, ∀ e A (Q : Unit → Emitter → Prop), Wrote e σ A n →
      (∀ e', Wrote e' σ (A ++ g i) n → Q () e') → Out (f i) fs e E Q)
    (wrote : e.Wrote σ A n) (next : ∀ e', Wrote e' σ (A ++ items.flatMap g) n → Q () e') : Out (items.forM f) fs e E Q := by
  induction items generalizing e A with
  | nil => exact next e (by simpa using wrote)
  | cons i is ih =>
    rw [Emit.forMCons, Emit.outBind]
    refine each i List.mem_cons_self e A _ wrote ?_
    intro e₁ wrote
    refine ih (fun j inside => each j (List.mem_cons_of_mem i inside)) wrote ?_
    intro e₂ wrote
    exact next e₂ (by simpa using wrote)

theorem outBox {t : Ty} (wrote : e.Wrote σ A n) (next : ∀ e', Wrote e' σ (A ++ Asm.box t) n → Q () e') :
    Out (Emit.box t) fs e E Q := by
  cases t with
  | prim p => exact wrote.outOp next
  | _ => exact next e (by simpa [Asm.box] using wrote)

end Emitter.Wrote

namespace MethodDraft

variable {m : MethodDraft} {fs : Frames} {h : Heap} {verifying : Bool} {method : Method} {body : Seq}

theorem renderClosed {A : Asm} (top : Nat) (is : m.render fs h verifying = .ok method) (known : m.body = some body)
    (writes : ∀ e, e.Wrote (Slots.body fs m.frame) [] 0 → Out body fs e (fun _ => True) fun _ e' => ∃ σ n, e'.Wrote σ A n ∧
      top ≤ σ.next)
    (distinct : A.labels.Nodup) :
    method.Lays (A ++ m.trailer) ∧ method.handlers = [] ∧ method.ref = m.ref ∧ top ≤ method.maxLocals := by
  obtain ⟨body', e, same, ended, written⟩ := renderWritten is
  cases known.symm.trans same
  obtain ⟨e₁, active, next, ran, rfl⟩ := emissionEnds ended
  obtain ⟨_, e₂, first, last⟩ := Emit.bindEnds ran
  have start : (entered fs m.frame).Wrote (Slots.body fs m.frame) [] 0 :=
    ⟨rfl, rfl, nofun, rfl, rfl, Nat.le_max_right 0 _⟩
  have out := writes _ start
  unfold Out at out
  rw [first] at out
  obtain ⟨σ, n, wrote, later⟩ := out
  have closed : e₁.Wrote σ (A ++ m.trailer) n ∧ (A ++ m.trailer).labels = A.labels := by
    unfold trailer
    cases void : m.returns.isVoid with
    | true =>
      rw [void] at last
      refine ⟨?_, by simp⟩
      have out : Emit.Out (Emit.op (.ret 0)) fs e₂ (fun _ => True) fun _ e' => e'.Wrote σ (A ++ [.op (.ret 0)]) n :=
        wrote.outOp fun _ wrote => wrote
      unfold Out at out
      rwa [show Emit.op (.ret 0) fs e₂ = _ from last] at out
    | false =>
      rw [void] at last
      cases last
      exact ⟨by simpa using wrote, by simp⟩
  obtain ⟨wrote, same⟩ := closed
  refine ⟨⟨?_, ?_⟩, ?_, written.ref, ?_⟩
  · rw [written.ops]
    exact wrote.ops
  · intro l p marked
    have at_ := wrote.placed (same ▸ distinct) l p marked
    have labels : method.labels[l]? = some p := by
      rw [← Array.getElem?_toList, written.labels, List.getElem?_map, Array.getElem?_toList, at_]
      rfl
    rw [Method.position, Array.getD_eq_getD_getElem?, labels]
    rfl
  · rw [written.handlers]
    exact wrote.handlers
  · rw [written.maxLocals]
    exact Nat.le_trans later wrote.room

theorem renderLaid {A : Asm} (top : Nat) (is : m.render fs h verifying = .ok method) (known : m.body = some body)
    (returns : m.returns.isVoid = false)
    (writes : ∀ e, e.Wrote (Slots.body fs m.frame) [] 0 → Out body fs e (fun _ => True) fun _ e' => ∃ σ n, e'.Wrote σ A n ∧
      top ≤ σ.next)
    (distinct : A.labels.Nodup) : method.Lays A ∧ method.handlers = [] ∧ method.ref = m.ref ∧ top ≤ method.maxLocals := by
  have closed := renderClosed top is known writes distinct
  unfold trailer at closed
  rwa [returns, if_neg Bool.false_ne_true, List.append_nil] at closed

end MethodDraft

end QueryMachine
