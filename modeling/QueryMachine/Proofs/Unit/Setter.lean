import QueryMachine.Proofs.Unit.Getter

/-! Setters of struct types. What is given is narrowed to the type of the field that a name stands for, by opening a box
or by a check, before the field is changed; where that fails nothing has changed. -/
namespace QueryMachine

open Emit (Out)

def Ty.checked? (t : Ty) : Option String := if t.isAny || t.prim?.isSome then none else t.rep.className?

namespace Struct

open Machine

/-! ### Narrowing -/

/-- What a value becomes in a field of the type: a primitive out of its box, and a value of any other type as it is. -/
def narrowed (h : Heap) : Ty → Value → Except Fault Value
  | .prim p, v => Number.unbox h p v
  | t, v => match t.checked? with
    | some cls => if v.isObject && !h.isInstance v cls then .error (.classCast cls (h.className v)) else .ok v
    | none => .ok v

theorem narrowedReference (h : Heap) {t : Ty} (reference : t.isPrimitive = false) (v : Value) :
    narrowed h t v = match t.checked? with
      | some cls => if v.isObject && !h.isInstance v cls then .error (.classCast cls (h.className v)) else .ok v
      | none => .ok v := by
  cases t with
  | prim p => contradiction
  | _ => rfl

theorem narrowedFaults {h : Heap} {t : Ty} {v : Value} {f : Fault} (failed : narrowed h t v = .error f) :
    f = .nullPointer ∨ ∃ cls, f = .classCast cls (h.className v) := by
  cases primitive : t.isPrimitive with
  | true =>
    cases t with
    | prim p =>
      cases v with
      | null => exact .inl (Except.error.inj failed).symm
      | boxed b => cases failed
      | _ => exact .inr ⟨_, (Except.error.inj failed).symm⟩
    | _ => contradiction
  | false =>
    rw [narrowedReference h primitive] at failed
    split at failed
    · split at failed
      · exact .inr ⟨_, (Except.error.inj failed).symm⟩
      · cases failed
    · cases failed

theorem narrowedSame {h : Heap} {t : Ty} {v x : Value} (reference : t.isPrimitive = false) (is : narrowed h t v = .ok x) :
    x = v := by
  rw [narrowedReference h reference] at is
  split at is
  · split at is
    · cases is
    · exact (Except.ok.inj is).symm
  · exact (Except.ok.inj is).symm

theorem narrowedFills {h : Heap} {t : Ty} {v x : Value} (narrow : v.width = 1) (is : narrowed h t v = .ok x) :
    x.Fills t.rep := by
  cases primitive : t.isPrimitive with
  | true =>
    cases t with
    | prim p =>
      cases v with
      | boxed b =>
        cases is
        change (Number.openBox p b).raw? = some p.num
        unfold Number.openBox
        cases p with
        | boolean => cases b <;> rfl
        | _ => rfl
      | _ => cases is
    | _ => contradiction
  | false =>
    rw [narrowedSame primitive is]
    cases t with
    | prim p => contradiction
    | atom n a => cases a <;> exact narrow
    | carrier n c t => cases c <;> exact narrow
    | _ => exact narrow

/-! ### Code -/

def narrowCode : Ty → Asm
  | .prim p => [.op (.unbox p)]
  | t => Asm.downcast t

def putCode (cls : String) (self given : Nat) (field : String × Ty) : Asm :=
  [.op (.load self), .op (.load given)] ++ narrowCode field.2 ++ [.op (.putField (fieldRef cls field)), .op (.ret 0)]

theorem downcastIs (t : Ty) : Asm.downcast t = (t.checked?.map fun cls => .op (.checkCast cls)).toList := by
  unfold Asm.downcast Ty.checked?
  split
  · rfl
  · cases t.rep <;> rfl

theorem narrowLabels (t : Ty) : (narrowCode t).labels = [] := by
  have plain : (Asm.downcast t).labels = [] := by
    rw [downcastIs]
    cases t.checked? <;> rfl
  cases t with
  | prim p => rfl
  | _ => exact plain

theorem putDistinct (cls : String) (fields : List (String × Ty)) (self slot given held : Nat) :
    (dispatchCode fields slot held (putCode cls self given)).labels.Nodup := by
  refine dispatchDistinct fields slot held fun f => ?_
  unfold putCode
  simp [narrowLabels]

section Emission

variable {E : Error → Prop} {fs : Frames} {e : Emitter} {σ : Slots} {A : Asm} {n : Nat} {Q : Unit → Emitter → Prop}

theorem outDowncast {t : Ty} (wrote : e.Wrote σ A n) (next : ∀ e', e'.Wrote σ (A ++ Asm.downcast t) n → Q () e') :
    Out (Emit.downcast t) fs e E Q := by
  unfold Asm.downcast at next
  unfold Emit.downcast
  split
  · next unchecked =>
    rw [if_pos unchecked] at next
    exact next e (by simpa using wrote)
  · next checked =>
    rw [if_neg checked] at next
    cases rep : t.rep with
    | ref cls =>
      rw [rep] at next
      exact wrote.outOp next
    | _ =>
      rw [rep] at next
      exact next e (by simpa using wrote)

theorem outNarrow {t : Ty} {rest : Emit Unit} (wrote : e.Wrote σ A n)
    (next : ∀ e', e'.Wrote σ (A ++ narrowCode t) n → Out rest fs e' E Q) :
    Out (if t.isPrimitive then do
        Emit.unbox t.boxed.nonNull
        rest
      else do
        Emit.downcast t
        rest) fs e E Q := by
  cases t with
  | prim p =>
    have opened : Emit.unbox (Ty.prim p).boxed.nonNull = Emit.ops [.unbox p] := by cases p <;> rfl
    rw [if_pos (show (Ty.prim p).isPrimitive = true from rfl), opened, Emit.outBind]
    exact wrote.outOps next
  | _ =>
    change Out (Emit.downcast _ >>= fun _ => rest) fs e E Q
    rw [Emit.outBind]
    exact outDowncast wrote next

theorem outSetter {cls : String} {fields : List (String × Ty)} {this name value : Local} {self slot given : Nat}
    (holdsThis : σ.find? this = some self) (holdsName : σ.find? name = some slot) (holdsValue : σ.find? value = some given)
    (wrote : e.Wrote σ [] 0) :
    Out (setterBody cls fields this name value) fs e E fun _ e' =>
      ∃ k, e'.Wrote (σ.temp 1) (dispatchCode fields slot σ.next (putCode cls self given)) k := by
  unfold setterBody
  simp only [Emit.outBind]
  refine wrote.outSlot holdsThis ?_
  refine wrote.outSlot holdsValue ?_
  refine outAccess holdsName ?_ wrote fun e' k wrote => ⟨k, wrote⟩
  intro f _ e A n Q wrote next
  simp only [Emit.outBind]
  refine wrote.outOps ?_
  intro e₁ wrote
  refine outNarrow wrote ?_
  intro e₂ wrote
  refine wrote.outOps ?_
  intro e₃ wrote
  exact next e₃ (by simpa [putCode] using wrote)

end Emission

/-! ### Runs -/

section Runs

variable {θ : Thread} {p q : Nat} {s : Stack} {ls : List Value} {w : World} {cls : String} {fields : List (String × Ty)}

theorem narrows {t : Ty} {v : Value} (spans : θ.method.Spans p (narrowCode t) q) (narrow : v.width = 1) :
    θ.Course ⟨p, v :: s, ls, w⟩ (match narrowed w.heap t v with
      | .ok x => .ok ⟨q, push x s, ls, w⟩
      | .error f => .error (f, w)) := by
  cases primitive : t.isPrimitive with
  | true =>
    cases t with
    | prim k =>
      obtain ⟨here, rfl⟩ := spans
      have is : core w.heap θ.method (.unbox k) (v :: s) ls =
          some ((narrowed w.heap (.prim k) v).map fun x => .next (push x s) ls) := by
        cases opened : Number.unbox w.heap k v <;> simp [core, pop, narrowed, opened, bind, Except.bind, Except.map]
      cases opened : narrowed w.heap (.prim k) v with
      | ok x =>
        rw [opened] at is
        exact Thread.next here is
      | error f =>
        rw [opened] at is
        exact Thread.faults here is
    | _ => contradiction
  | false =>
    have code : narrowCode t = (t.checked?.map fun cls => .op (.checkCast cls)).toList := by
      rw [← downcastIs]
      cases t with
      | prim k => contradiction
      | _ => rfl
    rw [code] at spans
    rw [narrowedReference w.heap primitive]
    cases checked : t.checked? with
    | none =>
      rw [checked] at spans
      cases spans
      rw [← pushOne narrow]
      exact .refl _
    | some cls =>
      rw [checked] at spans
      obtain ⟨here, rfl⟩ := spans
      by_cases foreign : (v.isObject && !w.heap.isInstance v cls) = true
      · have is : core w.heap θ.method (.checkCast cls) (v :: s) ls = some (.error (.classCast cls (w.heap.className v))) := by
          simp only [core, foreign, if_true]
        simp only [foreign, if_true]
        exact Thread.faults here is
      · have is : core w.heap θ.method (.checkCast cls) (v :: s) ls = some (.ok (.next (v :: s) ls)) := by
          simp only [core, foreign, Bool.false_eq_true, if_false]
        simp only [foreign, Bool.false_eq_true, if_false, pushOne narrow]
        exact Thread.next here is

theorem stores {f : FieldRef} {o : Address} {x : Value} {o' : Instance} (here : θ.method.ops[p]? = some (.putField f))
    (fills : x.Fills f.rep) (is : (w.heap.object o).put? f.name x = some o') :
    θ.Course ⟨p, push x (.object o :: s), ls, w⟩ (.ok ⟨p + 1, s, ls, { w with heap := w.heap.setObject o o' }⟩) := by
  refine Scene.outers (θ := θ.scene) here rfl ?_
  intro call apply
  change (Run.lift (popSized f.rep.width (push x (.object o :: s))) >>= _ : Run Stack) w = _
  rw [popFills fills]
  change (Run.orFault (.propertyNotFound f.name) ((w.heap.object o).put? f.name x) >>= _ : Run Stack) w = _
  rw [is]
  rfl

theorem putFinishes {self given : Nat} {f : String × Ty} {o : Address} {v : Value}
    (spans : θ.method.Spans p (putCode cls self given f) q) (holdsThis : ls[self]? = some (.object o))
    (holdsValue : ls[given]? = some v) (narrow : v.width = 1) :
    match narrowed w.heap f.2 v with
    | .ok x => ∀ o', (w.heap.object o).put? f.1 x = some o' →
      θ.Finishes ⟨p, [], ls, w⟩ (.ok .null) { w with heap := w.heap.setObject o o' }
    | .error fault => θ.Finishes ⟨p, [], ls, w⟩ (.error fault) w := by
  obtain ⟨last, front, put, return_, _⟩ := Method.spansAppend.1 spans
  obtain ⟨mid, ⟨load, given_, rfl⟩, narrow_⟩ := Method.spansAppend.1 front
  have loaded : core w.heap θ.method (.load self) [] ls = some (.ok (.next [.object o] ls)) := by simp [core, holdsThis]
  have given : core w.heap θ.method (.load given) [.object o] ls = some (.ok (.next [v, .object o] ls)) := by
    simp [core, holdsValue]
  have course := (Thread.next load loaded).trans ((Thread.next given_ given).trans (narrows (w := w) narrow_ narrow))
  cases is : narrowed w.heap f.2 v with
  | ok x =>
    rw [is] at course
    intro o' changed
    refine course.finishes ?_
    have fills : x.Fills (fieldRef cls f).rep := narrowedFills narrow is
    exact (stores (s := []) put fills changed).finishes (Thread.finishesVoid return_)
  | error fault =>
    rw [is] at course
    exact course.raises

theorem setterFinishes {self slot given held : Nat} {name : String} {o : Address} {v : Value}
    (spans : θ.method.Spans 0 (dispatchCode fields slot held (putCode cls self given)) q) (low : held < ls.length)
    (before : self < held ∧ slot < held ∧ given < held) (holdsThis : ls[self]? = some (.object o))
    (holdsName : ls[slot]? = some (.string name)) (holdsValue : ls[given]? = some v) (narrow : v.width = 1) :
    match upper? fields name with
    | some f => match narrowed w.heap f.2 v with
      | .ok x => ∀ o', (w.heap.object o).put? f.1 x = some o' →
        θ.Finishes ⟨0, [], ls, w⟩ (.ok .null) { w with heap := w.heap.setObject o o' }
      | .error fault => θ.Finishes ⟨0, [], ls, w⟩ (.error fault) w
    | none => θ.Finishes ⟨0, [], ls, w⟩ (.error (.propertyNotFound name)) w := by
  obtain ⟨this, key, value⟩ := before
  have goes := accessorGoes (w := w) spans low (Nat.ne_of_lt key) holdsName
  cases found : upper? fields name with
  | none =>
    rw [found] at goes
    exact goes.raises
  | some f =>
    rw [found] at goes
    obtain ⟨p, q, spans, course⟩ := goes
    have kept : ∀ {i : Nat} {u}, i < held → ls[i]? = some u → (ls.set held (.string (Text.Uppercase.text name)))[i]? = some u := by
      intro i u below is
      rw [List.getElem?_set_ne (Nat.ne_of_gt below), is]
    have put := putFinishes (w := w) spans (kept this holdsThis) (kept value holdsValue) narrow
    dsimp only
    cases is : narrowed w.heap f.2 v with
    | ok x =>
      rw [is] at put
      exact fun o' changed => course.finishes (put o' changed)
    | error fault =>
      rw [is] at put
      exact course.finishes put

end Runs

end Struct

end QueryMachine
