import QueryMachine.Proofs.Code.Relocation
import QueryMachine.Proofs.Unit.Load

/-! What rendered methods are made of: the code that was written in their frame. -/
namespace QueryMachine

structure Method.Written (method : Method) (ref : MethodRef) (e : Emitter) : Prop where
  ref : method.ref = ref
  ops : method.ops = e.ops
  labels : method.labels.toList = e.labels.toList.map (·.getD 0)
  handlers : method.handlers = e.handlers
  maxLocals : method.maxLocals = e.maxLocals

namespace Emit

variable {α β : Type} {fs : Frames} {e e' : Emitter}

theorem bindEnds {x : Emit β} {f : β → Emit α} {v : α} (ends : (x >>= f) fs e = (.ok v, e')) :
    ∃ u e₁, x fs e = (.ok u, e₁) ∧ f u fs e₁ = (.ok v, e') := by
  rcases answer : x fs e with ⟨err | u, e₁⟩
  · rw [bindError answer] at ends
    cases ends
  · rw [bindOk answer] at ends
    exact ⟨u, e₁, rfl, ends⟩

theorem exitKeeps {f : FrameId} (ends : exitFrame f fs e = (.ok (), e')) :
    ∃ active next, e' = { e with active, nextSlot := next } := by
  rw [exitIs] at ends
  split at ends
  · cases ends
  · next a rest _ =>
    split at ends <;> cases ends
    exact ⟨rest, a.base, rfl⟩

end Emit

namespace MethodDraft

variable {m : MethodDraft} {fs : Frames} {h : Heap} {verifying : Bool} {method : Method} {body : Seq} {e : Emitter}

def entered (fs : Frames) (f : FrameId) : Emitter :=
  let laid := Emit.layout 0 ((fs.frame f).locals.map (·.2))
  { Emitter.empty with nextSlot := laid.2, maxLocals := max 0 laid.2, active := [⟨f, 0, laid.1⟩] }

theorem emissionEnds (ends : m.emission body fs .empty = (.ok (), e)) :
    ∃ e₁ active next, (do
        body
        if m.returns.isVoid then Emit.op (.ret 0)) fs (entered fs m.frame) = (.ok (), e₁) ∧
      e = { e₁ with active, nextSlot := next } := by
  obtain ⟨_, _, entering, ends⟩ := Emit.bindEnds ends
  cases entering
  obtain ⟨generated, e₁, tried, ends⟩ := Emit.bindEnds ends
  rcases answer : (do
      body
      if m.returns.isVoid then Emit.op (.ret 0)
      return none : Emit (Option Error)) fs (entered fs m.frame) with ⟨err | made, e₂⟩
  · have caught := Emit.tryError (f := fun err => return some err) answer
    cases caught.symm.trans tried
    obtain ⟨_, _, _, ends⟩ := Emit.bindEnds ends
    cases ends
  · have kept := Emit.tryOk (f := fun err => return some err) answer
    cases kept.symm.trans tried
    obtain ⟨_, e₃, first, last⟩ := Emit.bindEnds answer
    have closed : (if m.returns.isVoid then Emit.op (.ret 0) else pure ()) fs e₃ = (.ok (), e₁) ∧ generated = none := by
      cases void : m.returns.isVoid with
      | true =>
        rw [void] at last
        cases last
        exact ⟨rfl, rfl⟩
      | false =>
        rw [void] at last
        cases last
        exact ⟨rfl, rfl⟩
    obtain ⟨closed, rfl⟩ := closed
    obtain ⟨active, next, is⟩ := Emit.exitKeeps ends
    exact ⟨e₁, active, next, (Emit.bindOk first).trans closed, is⟩

theorem renderWritten (is : m.render fs h verifying = .ok method) : ∃ body e, m.body = some body ∧
    m.emission body fs .empty = (.ok (), e) ∧ method.Written m.ref e := by
  obtain ⟨body, e, _, known, written, _, _, rfl⟩ := renderFrom is
  exact ⟨body, e, known, written, rfl, rfl, rfl, rfl, rfl⟩

end MethodDraft

namespace UnitDraft

variable {u : UnitDraft} {fs : Frames} {h : Heap} {verifying : Bool} {c : Class}

theorem renderIs (is : u.render fs h verifying = .ok c) :
    List.Forall₂ (fun m method => m.render fs h verifying = .ok method) u.methods c.methods ∧
      c = ⟨u.name, u.fields.map fun f => (f.1, f.2.rep), u.statics.map fun f => (f.1, f.2.rep), c.methods⟩ := by
  unfold render at is
  obtain ⟨methods, rendered, is⟩ := exceptBind is
  cases is
  have each : ∀ m ∈ u.methods, Answers (m.render fs h verifying) (fun _ => True) fun _ => True := fun m _ => by
    cases m.render fs h verifying <;> trivial
  have answers := Load.methodsRendered (E := fun _ => True) each
  rw [rendered] at answers
  exact ⟨answers, rfl⟩

end UnitDraft

end QueryMachine
