import Mathlib.Data.List.GetD
import Mathlib.Data.List.Nodup
import QueryMachine.Build.Catch
import QueryMachine.Proofs.Build.Basic
import QueryMachine.Proofs.Code.Growth
import QueryMachine.Proofs.Machine.Protection

/-! Sequences that add code of their own: they bind no label of others, and their regions protect nothing but what they
write. What they leave for, and what they do to the stack, is not asked. -/
namespace QueryMachine

open Emit (Out)

structure Emitter.Adds (e e' : Emitter) (c : Piece) : Prop where
  grown : e.Grown e' e'.slots c.code c.handlers fun _ => False
  active : e'.active = e.active
  next : e.nextSlot ≤ e'.nextSlot
  own : c.Own

def Emitter.Closed (e : Emitter) : Prop := ∀ h ∈ e.handlers, ∃ p, e.labels[h.stop]? = some (some p) ∧ p ≤ e.ops.size

theorem Emitter.emptyClosed : Emitter.empty.Closed := nofun

theorem Asm.marksHigh {A : Asm} {start p : Nat} {l : Label} (marked : (l, p) ∈ marks start A) : p ≤ start + A.ops.length := by
  induction A generalizing start with
  | nil => simp at marked
  | cons item A ih =>
    cases item with
    | op o => exact Nat.le_trans (ih marked) (by simp; omega)
    | mark l' =>
      rcases List.mem_cons.1 marked with here | later
      · rw [(Prod.mk.inj here).2]
        exact Nat.le_add_right start _
      · exact ih later

theorem Walk.grown {knows : String → Prop} {mode : Option Nat} {e e' : Emitter} {σ : Slots} {A : Asm} {Λ : List (Label × Nat)}
    {W : Label → Prop} {c : Option Nat} (walk : Walk knows mode e e' σ A Λ W c) : e.Grown e' σ A [] W where
  ops := walk.ops
  more := walk.grows
  old := walk.old
  waiting := walk.unbound
  placed := walk.placed
  handlers := walk.handlers.trans (List.append_nil _).symm
  slots := walk.slots
  room _ := walk.room
  locals := walk.locals

namespace Seq

variable {fs : Frames} {σ : Slots} {x y : Seq}

/-- With locals where they are at `σ`, and slots taken from there on, all that a sequence does is to add a piece of code. -/
def Contained (fs : Frames) (σ : Slots) (x : Seq) : Prop :=
  ∀ e e', e.active = σ.active → σ.next ≤ e.nextSlot → e.nextSlot ≤ e.maxLocals → x fs e = (.ok (), e') →
    ∃ c, e.Adds e' c

def Wrote (fs : Frames) (σ : Slots) (x : Seq) (c : Piece) : Prop :=
  ∃ e e', e.active = σ.active ∧ σ.next ≤ e.nextSlot ∧ x fs e = (.ok (), e') ∧ e.Adds e' c

theorem Wrote.own {c : Piece} (wrote : x.Wrote fs σ c) : c.Own := by
  obtain ⟨_, _, _, _, _, adds⟩ := wrote
  exact adds.own

end Seq

namespace Emitter.Grown

variable {fs : Frames} {e₀ e : Emitter} {σ τ : Slots} {A : Asm} {hs : List Handler} {W : Label → Prop}

theorem outLocal {Q : Nat → Emitter → Prop} {l : Local} (grown : Grown e₀ e τ A hs W) (active : τ.active = σ.active)
    (next : ∀ s, σ.find? l = some s → Q s e) : Out (Emit.slotOf l) fs e (fun _ => True) Q := by
  have same : τ.find? l = σ.find? l := by
    unfold Slots.find?
    rw [active]
  cases found : σ.find? l with
  | some s => exact grown.outSlot (same.trans found) (next s found)
  | none =>
    have missing : e.slots.find? l = none := by rw [grown.slots, same, found]
    have here : e.active.findSome? (fun a => if a.frame = l.frame then a.slots[l.index]? else none) = none := missing
    unfold Emit.slotOf
    rw [Emit.outBind, Emit.outGet, here]
    trivial

theorem outSeq {x : Seq} {Q : Unit → Emitter → Prop} (grown : Grown e₀ e τ A hs W) (contained : x.Contained fs σ)
    (active : τ.active = σ.active) (later : σ.next ≤ τ.next) (room : e₀.nextSlot ≤ e₀.maxLocals)
    (next : ∀ e' τ' c, x.Wrote fs σ c → τ'.active = σ.active → σ.next ≤ τ'.next →
      Grown e₀ e' τ' (A ++ c.code) (hs ++ c.handlers) W → Q () e') : Out x fs e (fun _ => True) Q := by
  have fits := grown.room room
  have same := grown.slots
  subst same
  unfold Out
  rcases answer : x fs e with ⟨err | ⟨⟩, e'⟩
  · trivial
  · obtain ⟨c, adds⟩ := contained e e' active later fits answer
    exact next e' e'.slots c ⟨e, e', active, later, answer, adds⟩ (adds.active.trans active) (Nat.le_trans later adds.next)
      (grown.append adds.grown)

end Emitter.Grown

/-! ### Ways to make them -/

namespace Piece

def append (c d : Piece) : Piece := ⟨c.code ++ d.code, c.handlers ++ d.handlers⟩

theorem Own.append {c d : Piece} (first : c.Own) (second : d.Own) : (c.append d).Own := by
  intro h inside
  simp only [Piece.append, Asm.labelsAppend, List.mem_append] at inside ⊢
  rcases inside with before | after
  · exact (first h before).imp .inl .inl
  · exact (second h after).imp .inr .inr

end Piece

namespace Emitter.Adds

variable {e e' e'' : Emitter} {c d : Piece}

theorem refl (e : Emitter) : e.Adds e ⟨[], []⟩ := ⟨.start e, rfl, Nat.le_refl _, nofun⟩

theorem trans (first : e.Adds e' c) (second : e'.Adds e'' d) : e.Adds e'' (c.append d) where
  grown := first.grown.append second.grown
  active := second.active.trans first.active
  next := Nat.le_trans first.next second.next
  own := first.own.append second.own

theorem closed (adds : e.Adds e' c) (closed : e.Closed) : e'.Closed := by
  intro h inside
  rw [adds.grown.handlers, List.mem_append] at inside
  rcases inside with before | own
  · obtain ⟨p, is, behind⟩ := closed h before
    rw [adds.grown.old _ (Array.getElem?_eq_some_iff.1 is).1, adds.grown.size]
    exact ⟨p, is, Nat.le_add_right_of_le behind⟩
  · obtain ⟨_, stop⟩ := adds.own h own
    rw [← Asm.labelsMarked c.code e.ops.size] at stop
    obtain ⟨⟨l, p⟩, marked, same⟩ := List.mem_map.1 stop
    refine ⟨p, same ▸ adds.grown.placed l p marked, ?_⟩
    rw [adds.grown.size]
    exact Asm.marksHigh marked

end Emitter.Adds

namespace Seq

variable {fs : Frames} {σ : Slots} {x y : Seq}

theorem containedWritten (written : ∀ e : Emitter, e.active = σ.active → σ.next ≤ e.nextSlot → e.nextSlot ≤ e.maxLocals →
    Out x fs e (fun _ => True) fun _ e' => ∃ (c : Piece) (τ : Slots) (W : Label → Prop),
      e.Grown e' τ c.code c.handlers W ∧ τ.active = e.active ∧ e.nextSlot ≤ τ.next ∧ c.Own) : x.Contained fs σ := by
  intro e e' active later room is
  have written := written e active later room
  unfold Out at written
  rw [is] at written
  obtain ⟨c, τ, W, grown, active, next, own⟩ := written
  cases grown.slots
  exact ⟨c, grown.fewer nofun, active, next, own⟩

theorem containedNop : Contained fs σ nop :=
  containedWritten fun e _ _ _ => ⟨⟨[], []⟩, e.slots, _, .start e, rfl, Nat.le_refl _, nofun⟩

theorem containedOps (os : List Op) : Contained fs σ (Emit.ops os) :=
  containedWritten fun e _ _ _ => (Emitter.Grown.start e).outOps fun _ grown =>
    ⟨⟨os.map .op, []⟩, e.slots, _, grown, rfl, Nat.le_refl _, nofun⟩

theorem opsWrote {os : List Op} {c : Piece} (wrote : Wrote fs σ (Emit.ops os) c) : c.code.ops = os ∧ c.handlers = [] := by
  obtain ⟨e, e', _, _, is, adds⟩ := wrote
  cases is
  have ops := adds.grown.ops
  have handlers := adds.grown.handlers
  rw [Array.toList_append] at ops
  exact ⟨(List.append_cancel_left ops).symm, List.self_eq_append_right.1 handlers⟩

theorem containedBox (t : Ty) : Contained fs σ (Emit.box t) := by
  cases t with
  | prim p =>
    exact containedWritten fun e _ _ _ => (Emitter.Grown.start e).outOp fun _ grown =>
      ⟨⟨[.op (.box p)], []⟩, e.slots, _, grown, rfl, Nat.le_refl _, nofun⟩
  | _ => exact containedNop

theorem containedThen (first : x.Contained fs σ) (second : y.Contained fs σ) : Contained fs σ (do x; y) := by
  intro e e' active later room is
  rcases answer : x fs e with ⟨err | ⟨⟩, e₁⟩
  · rw [Emit.bindError answer] at is
    cases is
  · rw [Emit.bindOk answer] at is
    obtain ⟨c, adds⟩ := first e e₁ active later room answer
    obtain ⟨d, more⟩ := second e₁ e' (adds.active.trans active) (Nat.le_trans later adds.next) (adds.grown.room room) is
    exact ⟨_, adds.trans more⟩

theorem containedBlock {items : List Seq} (all : ∀ x ∈ items, x.Contained fs σ) : (block items).Contained fs σ := by
  induction items with
  | nil => exact containedNop
  | cons x xs ih =>
    rw [List.forall_mem_cons] at all
    unfold block
    rw [Emit.forMCons]
    exact containedThen all.1 (ih all.2)

theorem containedWalk {E : Error → Prop} {knows : String → Prop} {Γ : Frames → Slots → Prop} {width : Nat}
    {K : Slots → Asm → Prop} (emits : Emits E knows Γ width K x)
    (visible : ∀ τ : Slots, τ.active = σ.active → σ.next ≤ τ.next → Γ fs τ) : x.Contained fs σ := by
  refine containedWritten fun e active later room => ?_
  refine (emits fs e (visible e.slots active later) room).mono ?_ fun _ _ => trivial
  rintro _ e' ⟨X, _, walk⟩
  exact ⟨⟨X, []⟩, e.slots, _, walk.grown, rfl, Nat.le_refl _, nofun⟩

/-! ### Fragments -/

def renamed (f : Label → Label) : Asm → Asm
  | [] => []
  | .op o :: A => .op (o.relabel f) :: renamed f A
  | .mark l :: A => .mark (f l) :: renamed f A

theorem emitWithGrows {E : Error → Prop} {e₀ e : Emitter} {A items : Asm} {hs : List Handler} {W : Label → Prop}
    {Q : Unit → Emitter → Prop} {f : Label → Label} (grown : e₀.Grown e σ A hs W) (once : items.labels.Nodup)
    (apart : ∀ l ∈ items.labels, ∀ l' ∈ items.labels, f l = f l' → l = l') (waits : ∀ l ∈ items.labels, W (f l))
    (next : ∀ e' W', e₀.Grown e' σ (A ++ renamed f items) hs W' → Q () e') :
    Out (Fragment.emitWith f ⟨items⟩) fs e E Q := by
  unfold Fragment.emitWith
  induction items generalizing e A W with
  | nil => exact next e W (by simpa [renamed] using grown)
  | cons item items ih =>
    rw [Emit.forMCons, Emit.outBind]
    cases item with
    | op o =>
      refine grown.outOp ?_
      intro e₁ grown
      refine ih grown once apart waits ?_
      intro e' W' grown
      exact next e' W' (by simpa [renamed] using grown)
    | mark l =>
      rw [Asm.labelsMark, List.nodup_cons] at once
      refine grown.outMark (waits l List.mem_cons_self) ?_
      intro e₁ grown
      refine ih grown once.2 ?_ ?_ ?_
      · exact fun x inside y inside' => apart x (List.mem_cons_of_mem l inside) y (List.mem_cons_of_mem l inside')
      · intro x inside
        refine ⟨waits x (List.mem_cons_of_mem l inside), fun same => once.1 ?_⟩
        exact apart x (List.mem_cons_of_mem l inside) l List.mem_cons_self same ▸ inside
      · intro e' W' grown
        exact next e' W' (by simpa [renamed] using grown)

theorem labelsNamed {items : Asm} {l : Label} (inside : l ∈ items.labels) : l ∈ items.flatMap Fragment.Item.labels := by
  induction items with
  | nil => contradiction
  | cons item items ih =>
    rw [List.flatMap_cons, List.mem_append]
    cases item with
    | op o => exact .inr (ih inside)
    | mark l' =>
      rcases List.mem_cons.1 inside with rfl | later
      · exact .inl List.mem_cons_self
      · exact .inr (ih later)

theorem labelCountBounds {ls : List Label} {l : Label} (inside : l ∈ ls) : l < Fragment.labelCount ls := by
  have all : ∀ (ls : List Label) n, n ≤ ls.foldl (fun n l => max n (l + 1)) n ∧
      ∀ l ∈ ls, l < ls.foldl (fun n l => max n (l + 1)) n := by
    intro ls
    induction ls with
    | nil => exact fun n => ⟨Nat.le_refl n, nofun⟩
    | cons x ls ih =>
      intro n
      obtain ⟨more, bounds⟩ := ih (max n (x + 1))
      refine ⟨Nat.le_trans (Nat.le_max_left _ _) more, List.forall_mem_cons.2 ⟨?_, bounds⟩⟩
      exact Nat.le_trans (Nat.le_max_right _ _) more
  exact (all ls 0).2 l inside

theorem containedFragment {c : Fragment} (once : (Asm.labels c.items).Nodup) : Contained fs σ c.emit := by
  refine containedWritten fun e _ _ _ => ?_
  unfold Fragment.emit
  rw [Emit.outBind]
  refine (Emitter.Grown.start e).outLabels _ ?_
  intro made e₁ length distinct _ grown
  have at_ : ∀ l ∈ Asm.labels c.items, ∃ low : l < made.length, made.getD l 0 = made[l] := by
    intro l inside
    have low : l < made.length := length ▸ labelCountBounds (labelsNamed inside)
    exact ⟨low, made.getD_eq_getElem 0 low⟩
  refine emitWithGrows grown once ?_ ?_ ?_
  · intro l inside l' inside' same
    obtain ⟨low, is⟩ := at_ l inside
    obtain ⟨low', is'⟩ := at_ l' inside'
    rw [is, is'] at same
    exact distinct.getElem_inj_iff.1 same
  · intro l inside
    obtain ⟨low, is⟩ := at_ l inside
    exact .inl (is ▸ List.getElem_mem low)
  · exact fun e' W grown => ⟨⟨_, []⟩, e.slots, W, grown, rfl, Nat.le_refl _, nofun⟩

theorem containedOutcome {value : Expr} (contained : Contained fs σ value.generate) :
    Contained fs σ (Build.outcome value).generate := by
  refine containedWritten fun e active later room => ?_
  unfold Build.outcome Emit.jump
  simp only [Emit.outBind]
  refine (Emitter.Grown.start e).outLabel ?_
  intro start e₁ _ grown
  refine grown.outLabel ?_
  intro stop e₂ stopNew grown
  refine grown.outLabel ?_
  intro caught e₃ caughtNew grown
  refine grown.outLabel ?_
  intro done e₄ doneNew grown
  simp only [or_false, not_or] at stopNew caughtNew doneNew
  refine grown.outMark (by simp) ?_
  intro e₅ grown
  have contained : Contained fs e.slots value.generate := fun e₁ e₂ here behind =>
    contained e₁ e₂ (here.trans active) (Nat.le_trans later behind)
  refine grown.outSeq contained rfl (Nat.le_refl _) room ?_
  intro e₆ τ c wrote here behind grown
  refine grown.outSeq (containedBox value.type) here behind room ?_
  intro e₇ τ b boxed here behind grown
  refine grown.outOp ?_
  intro e₈ grown
  refine grown.outMark (l := stop) ⟨by simp, stopNew⟩ ?_
  intro e₉ grown
  refine grown.outOp ?_
  intro e₁₀ grown
  refine grown.outMark (l := caught) ⟨⟨by simp, caughtNew.2⟩, caughtNew.1⟩ ?_
  intro e₁₁ grown
  refine grown.outOp ?_
  intro e₁₂ grown
  refine grown.outMark (l := done) ⟨⟨⟨by simp, doneNew.2.2⟩, doneNew.2.1⟩, doneNew.1⟩ ?_
  intro e₁₃ grown
  refine grown.outRegion ?_
  intro e₁₄ grown
  refine ⟨⟨_, _⟩, τ, _, grown, here, behind, ?_⟩
  have first := wrote.own
  have second := boxed.own
  intro h inside
  simp only [List.nil_append, List.mem_append, List.mem_singleton] at inside
  rcases inside with (inside | inside) | rfl
  · simp [first h inside]
  · simp [second h inside]
  · simp

end Seq

end QueryMachine
