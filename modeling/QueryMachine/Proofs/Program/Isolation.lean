import QueryMachine.Proofs.Machine.Capture
import QueryMachine.Proofs.Program.Confinement
import QueryMachine.Proofs.Program.Verified
import QueryMachine.Proofs.Unit.Twin

/-! Statements are isolated: where the method of an expression returns or raises, that of the statement of the same tree
returns the outcome. -/
namespace QueryMachine

namespace MethodDraft

variable {m : MethodDraft} {fs : Frames} {h : Heap} {verifying : Bool} {method method' : Method} {host : String}

theorem enteredTidy (host : String) (returns : Prop) (fs : Frames) (f : FrameId) : (entered fs f).Tidy host returns :=
  ⟨nofun, nofun⟩

theorem Confined.rendered (confined : m.Confined) (is : m.render fs h verifying = .ok method) :
    ∀ o ∈ method.ops, o.Confined Compiler.unitName True := by
  obtain ⟨body, e, known, emitted, written⟩ := renderWritten is
  obtain ⟨e₁, active, next, ends, rfl⟩ := emissionEnds emitted
  rw [written.ops]
  have closed : Emit.Keeps Compiler.unitName True (if m.returns.isVoid then Emit.op (.ret 0) else pure ()) := by
    split
    · exact (Emit.opFloats (o := .ret 0) trivial rfl).keeps
    · exact Emit.keepsPure ()
  have kept := (confined body known).bind fun _ => closed
  exact (kept fs _ () e₁ (enteredTidy _ _ fs m.frame) ends).ops

def around : Array (Option Nat) := #[some 0, none, none, none]

def outcomeOf (e : Emitter) : Emitter :=
  let n := e.ops.size
  { e.relocate around with
    ops := e.ops.map (Op.relabel (· + 4)) ++
      #[.native .outcomeSuccess, .jump 3, .native .outcomeFailure, .ret 1]
    labels := #[some 0, some (n + 1), some (n + 2), some (n + 3)] ++ e.labels
    handlers := e.handlers.map (Handler.relocate 4) ++ [⟨0, 1, 2, .any⟩] }

theorem outcomeWritten {x : Expr} (confined : x.Confined host) {f : FrameId} {e : Emitter}
    (ends : x.generateAs .any fs (entered fs f) = (.ok (), e)) :
    Seq.ret (Build.outcome x) .any fs (entered fs f) = (.ok (), outcomeOf e) := by
  obtain ⟨_, _, _, moved⟩ := asConfined confined .any around fs _ _ _ (enteredTidy host False fs f) ends
  have start : (entered fs f).relocate around = { entered fs f with labels := around } := by
    simp [Emitter.relocate, entered, Emitter.empty, around]
  rw [start] at moved
  obtain ⟨_, e₁, generated, boxed⟩ := Emit.bindEnds moved
  rw [Emit.castAny] at boxed
  have attempted : (Build.outcome x).generate fs (entered fs f) = (.ok (), { outcomeOf e with
      ops := e.ops.map (Op.relabel (· + 4)) ++ #[.native .outcomeSuccess, .jump 3, .native .outcomeFailure] }) := by
    have starts : (Build.outcome x).generate fs (entered fs f) = (do
        x.generate
        Emit.box x.type
        Emit.op (.native .outcomeSuccess)
        Emit.mark 1
        Emit.jump 3
        Emit.mark 2
        Emit.op (.native .outcomeFailure)
        Emit.mark 3
        Emit.region 0 1 2 .any) fs { entered fs f with labels := around } := rfl
    rw [starts, Emit.bindOk generated, Emit.bindOk boxed]
    change (Except.ok (), _) = _
    simp [outcomeOf, Emitter.relocate, around, ← Array.toList_inj]
  unfold Seq.ret Expr.generateAs
  rw [Emit.castAny]
  refine (Emit.bindOk ((Emit.bindOk attempted).trans rfl)).trans ?_
  change (Except.ok (), _) = _
  simp [outcomeOf, show Ty.any.width = 1 from rfl]

theorem bodyWritten {body : Seq} (known : m.body = some body) (returns : m.returns = .any)
    (is : m.render fs h verifying = .ok method) : ∃ e active next, body fs (entered fs m.frame) = (.ok (), e) ∧
      method.Written m.ref { e with active, nextSlot := next } := by
  obtain ⟨body', e, known', emitted, written⟩ := renderWritten is
  cases known.symm.trans known'
  obtain ⟨e₁, active, next, ends, rfl⟩ := emissionEnds emitted
  rw [returns] at ends
  obtain ⟨_, _, ends, last⟩ := Emit.bindEnds ends
  cases last
  exact ⟨_, active, next, ends, written⟩

theorem positionAt {labels : List Nat} (is : method.labels.toList = labels) (l : Label) :
    method.position l = (labels[l]?).getD 0 := by
  subst is
  simp [Method.position, Array.getD_eq_getD_getElem?]

theorem captured {ref ref' : MethodRef} {e : Emitter} {active active' : List ActiveFrame} {next next' : Nat}
    (tidy : e.Tidy host False) (written : method.Written ref { e with ops := e.ops.push (.ret 1), active, nextSlot := next })
    (written' : method'.Written ref' { outcomeOf e with active := active', nextSlot := next' }) :
    method.Captured host e.ops.size method' := by
  have positions : ∀ l, method.position l = ((e.labels[l]?).map (·.getD 0)).getD 0 := by
    intro l
    rw [positionAt written.labels, List.getElem?_map, Array.getElem?_toList]
  have positions' : ∀ l, method'.position l = (((outcomeOf e).labels[l]?).map (·.getD 0)).getD 0 := by
    intro l
    rw [positionAt written'.labels, List.getElem?_map, Array.getElem?_toList]
  have own : method.ops = e.ops.push (.ret 1) := written.ops
  have theirs : method'.ops = (outcomeOf e).ops := written'.ops
  exact {
    size := by rw [own, Array.size_push]
    confined := by
      intro pc o low at_
      rw [own, Array.getElem?_push_lt low] at at_
      cases at_
      exact tidy.ops _ (Array.getElem_mem low)
    last := by rw [own, Array.getElem?_push_size]
    same := by
      intro pc o low at_
      rw [own, Array.getElem?_push_lt low] at at_
      cases at_
      rw [theirs]
      simp [outcomeOf, Array.getElem?_append, low]
    succeeds := by simp [theirs, outcomeOf]
    skips := by simp [theirs, outcomeOf]
    fails := by simp [theirs, outcomeOf]
    returns := by simp [theirs, outcomeOf]
    labels := by simp [positions', outcomeOf, Array.getElem?_append]
    moved := by
      intro l
      have beyond : ¬ l + 4 < 4 := Nat.not_lt.2 (Nat.le_add_left 4 l)
      rw [positions, positions']
      simp [outcomeOf, Array.getElem?_append, beyond]
    inside := by
      intro l
      rw [positions]
      rcases at_ : e.labels[l]? with _ | _ | p
      · exact Nat.zero_le _
      · exact Nat.zero_le _
      · exact tidy.placed l p at_
    handlers := by
      rw [written'.handlers, written.handlers]
      rfl
    locals := by
      rw [written'.maxLocals, written.maxLocals]
      rfl }

theorem outcomeMembers (e : Emitter) :
    (outcomeOf e).ops.toList.filterMap Op.memberClass? = (e.ops.push (.ret 1)).toList.filterMap Op.memberClass? := by
  have moved : Op.memberClass? ∘ Op.relabel (· + 4) = Op.memberClass? := by
    funext o
    cases o <;> rfl
  simp only [outcomeOf, Array.toList_append, Array.toList_map, Array.toList_push, List.filterMap_append, List.filterMap_map, moved]
  rfl

theorem renderCaptured {x : Expr} (confined : x.Confined host) (returns : m.returns = .any)
    (is : (m.withValue x).render fs h verifying = .ok method)
    (is' : (m.withValue (Build.outcome x)).render fs h verifying = .ok method') :
    (∃ n, method.Captured host n method') ∧
      method'.ops.toList.filterMap Op.memberClass? = method.ops.toList.filterMap Op.memberClass? := by
  obtain ⟨e₁, _, _, ends, written⟩ := bodyWritten (m := m.withValue x) rfl returns is
  obtain ⟨e₂, _, _, ends', written'⟩ := bodyWritten (m := m.withValue (Build.outcome x)) rfl returns is'
  rw [returns] at ends ends'
  obtain ⟨_, e, value, last⟩ := Emit.bindEnds ends
  cases last
  have outcome := outcomeWritten confined value
  cases outcome.symm.trans ends'
  have tidy := (asConfined confined .any #[] fs _ _ _ (enteredTidy host False fs m.frame) value).1
  refine ⟨⟨e.ops.size, captured tidy written written'⟩, ?_⟩
  rw [written.ops, written'.ops]
  exact outcomeMembers e

inductive Twins : MethodDraft → MethodDraft → Prop
  | same (m : MethodDraft) : Twins m m
  | outcome {m : MethodDraft} {x : Expr} (confined : x.Confined Compiler.unitName) (returns : m.returns = .any) :
      Twins (m.withValue x) (m.withValue (Build.outcome x))

theorem Twins.ref {m m' : MethodDraft} (twins : Twins m m') : m'.ref = m.ref := by
  cases twins <;> rfl

theorem Twins.members {m m' : MethodDraft} (twins : Twins m m') (is : m.render fs h verifying = .ok method)
    (is' : m'.render fs h verifying = .ok method') :
    method'.ops.toList.filterMap Op.memberClass? = method.ops.toList.filterMap Op.memberClass? := by
  cases twins with
  | same =>
    cases is.symm.trans is'
    rfl
  | outcome confined returns => exact (renderCaptured confined returns is is').2

end MethodDraft

namespace UnitDraft

structure Twins (u u' : UnitDraft) : Prop where
  only : u' = { u with methods := u'.methods }
  methods : List.Forall₂ MethodDraft.Twins u.methods u'.methods
  other : u.name ≠ Compiler.unitName → u' = u

variable {u u' : UnitDraft} {fs : Frames} {h : Heap} {verifying : Bool} {c c' : Class}

theorem Twins.refl (u : UnitDraft) : u.Twins u where
  only := rfl
  methods := List.forall₂_same.2 fun m _ => .same m
  other _ := rfl

theorem Twins.name (twins : u.Twins u') : u'.name = u.name := by rw [twins.only]

theorem Twins.empty (twins : u.Twins u') : u'.isEmpty = u.isEmpty := by
  have none : u'.methods.isEmpty = u.methods.isEmpty := by
    rw [Bool.eq_iff_iff, List.isEmpty_iff_length_eq_zero, List.isEmpty_iff_length_eq_zero, twins.methods.length_eq]
  unfold UnitDraft.isEmpty
  rw [none, twins.only]

theorem Twins.rendered (twins : u.Twins u') (is : u.render fs h verifying = .ok c) (is' : u'.render fs h verifying = .ok c') :
    c.Twins Compiler.unitName c' := by
  obtain ⟨methods, same⟩ := renderIs is
  obtain ⟨methods', same'⟩ := renderIs is'
  have name : c'.name = c.name := by rw [same, same', twins.name]
  have members : (c'.methods.flatMap fun m => m.ops.toList.filterMap Op.memberClass?) =
      c.methods.flatMap fun m => m.ops.toList.filterMap Op.memberClass? := by
    have pairs := twins.methods
    clear same same' is is' name
    generalize u.methods = ms, u'.methods = ms', c.methods = rs, c'.methods = rs' at pairs methods methods'
    induction pairs generalizing rs rs' with
    | nil =>
      cases methods
      cases methods'
      rfl
    | cons first _ ih =>
      obtain _ | ⟨one, rest⟩ := methods
      obtain _ | ⟨one', rest'⟩ := methods'
      rw [List.flatMap_cons, List.flatMap_cons, ih _ _ rest rest', first.members one one']
  refine ⟨name, ?_, ?_, ?_⟩
  · rw [same, same', twins.only]
  · unfold Class.dependencies
    rw [members, name]
  · intro other
    rw [twins.other (by rwa [same] at other)] at is'
    exact (Except.ok.inj (is.symm.trans is')).symm

end UnitDraft

end QueryMachine
