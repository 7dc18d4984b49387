import QueryMachine.Machine.World
import QueryMachine.Session

/-! Computations taken apart: what a sequence that ended well went through, and what can be said of the end of
a run from what holds of its parts. -/
namespace QueryMachine

theorem exceptBind {ε α β : Type} {x : Except ε α} {f : α → Except ε β} {b : β}
    (ok : (x >>= f) = .ok b) : ∃ a, x = .ok a ∧ f a = .ok b := by
  cases x with
  | error e => contradiction
  | ok a => exact ⟨a, rfl, ok⟩

theorem exceptForM {ε α : Type} {f : α → Except ε Unit} {xs : List α} :
    xs.forM f = .ok () ↔ ∀ x ∈ xs, f x = .ok () := by
  induction xs with
  | nil => simp [List.forM, pure, Except.pure]
  | cons x xs ih =>
    change (f x >>= fun _ => xs.forM f) = _ ↔ _
    simp only [List.mem_cons, forall_eq_or_imp, ← ih]
    constructor
    · intro ok
      obtain ⟨_, first, rest⟩ := exceptBind ok
      exact ⟨first, rest⟩
    · rintro ⟨first, rest⟩
      rw [first]
      exact rest

/-! ### Answers -/

section Answers

variable {ε α β : Type} {Q : α → Prop} {E : ε → Prop}

def Answers (x : Except ε α) (Q : α → Prop) (E : ε → Prop) : Prop :=
  match x with
  | .ok v => Q v
  | .error e => E e

@[simp] theorem answersOk {v : α} : Answers (.ok v) Q E ↔ Q v := Iff.rfl

@[simp] theorem answersError {e : ε} : Answers (.error e) Q E ↔ E e := Iff.rfl

@[simp] theorem answersBind {x : Except ε β} {f : β → Except ε α} :
    Answers (x >>= f) Q E ↔ Answers x (fun v => Answers (f v) Q E) E := by
  cases x with
  | error e => exact Iff.rfl
  | ok v => exact Iff.rfl

theorem Answers.mono {x : Except ε α} {Q' : α → Prop} {E' : ε → Prop} (h : Answers x Q E)
    (values : ∀ v, Q v → Q' v) (errors : ∀ e, E e → E' e) : Answers x Q' E' := by
  cases x with
  | error e => exact errors e h
  | ok v => exact values v h

end Answers

/-! ### Runs -/

namespace Run

variable {α β : Type} {w : World} {Q : α → World → Prop} {E : Fault → World → Prop}

def Ends (x : Run α) (w : World) (Q : α → World → Prop) (E : Fault → World → Prop) : Prop :=
  match x w with
  | (.ok v, w') => Q v w'
  | (.error (.fault f), w') => E f w'
  | (.error .never, _) => True

@[simp] theorem endsPure {v : α} : Ends (pure v) w Q E ↔ Q v w := Iff.rfl

@[simp] theorem endsFault {f : Fault} : Ends (fault f) w Q E ↔ E f w := Iff.rfl

@[simp] theorem endsNever : Ends never w Q E ↔ True := Iff.rfl

theorem bindOk {x : Run β} {f : β → Run α} {v : β} {w' : World} (ok : x w = (.ok v, w')) :
    (x >>= f) w = f v w' := by
  simp only [bind, ExceptT.bind, ExceptT.mk, StateT.bind]
  rw [ok]
  rfl

theorem bindError {x : Run β} {f : β → Run α} {e : Stop} {w' : World} (failed : x w = (.error e, w')) :
    (x >>= f) w = (.error e, w') := by
  simp only [bind, ExceptT.bind, ExceptT.mk, StateT.bind]
  rw [failed]
  rfl

@[simp] theorem endsBind {x : Run β} {f : β → Run α} :
    Ends (x >>= f) w Q E ↔ Ends x w (fun v w' => Ends (f v) w' Q E) E := by
  unfold Ends
  rcases answer : x w with ⟨e | v, w'⟩
  · rw [bindError answer]
    cases e <;> exact Iff.rfl
  · rw [bindOk answer]

@[simp] theorem endsLift {r : Except Fault α} : Ends (lift r) w Q E ↔ Answers r (Q · w) (E · w) := by
  cases r <;> exact Iff.rfl

@[simp] theorem endsOrFault {f : Fault} {o : Option α} :
    Ends (orFault f o) w Q E ↔ (∀ v, o = some v → Q v w) ∧ (o = none → E f w) := by
  cases o with
  | none => exact ⟨fun h => ⟨fun _ => nofun, fun _ => h⟩, fun h => h.2 rfl⟩
  | some v => exact ⟨fun h => ⟨fun _ is => Option.some.inj is ▸ h, nofun⟩, fun h => h.1 v rfl⟩

@[simp] theorem endsGet {Q : World → World → Prop} : Ends (get : Run World) w Q E ↔ Q w w := Iff.rfl

@[simp] theorem endsSet {w' : World} {Q : PUnit → World → Prop} :
    Ends (set w' : Run PUnit) w Q E ↔ Q ⟨⟩ w' := Iff.rfl

@[simp] theorem endsModify {g : World → World} {Q : PUnit → World → Prop} :
    Ends (modify g : Run PUnit) w Q E ↔ Q ⟨⟩ (g w) := Iff.rfl

@[simp] theorem endsHeap {Q : Heap → World → Prop} : Ends heap w Q E ↔ Q w.heap w := Iff.rfl

@[simp] theorem endsSetHeap {h : Heap} {Q : Unit → World → Prop} :
    Ends (setHeap h) w Q E ↔ Q () { w with heap := h } := Iff.rfl

@[simp] theorem endsAlloc {make : Heap → Value × Heap} {Q : Value → World → Prop} :
    Ends (alloc make) w Q E ↔ Q (make w.heap).1 { w with heap := (make w.heap).2 } := Iff.rfl

theorem endsAttempt {x : Run α} {Q : Except Fault α → World → Prop} :
    Ends (attempt x) w Q E ↔ Ends x w (fun v => Q (.ok v)) (fun f => Q (.error f)) := by
  unfold Ends attempt
  rcases x w with ⟨e | v, w'⟩
  · cases e <;> exact Iff.rfl
  · exact Iff.rfl

theorem Ends.mono {x : Run α} {Q' : α → World → Prop} {E' : Fault → World → Prop} (h : Ends x w Q E)
    (values : ∀ v w', Q v w' → Q' v w') (faults : ∀ f w', E f w' → E' f w') : Ends x w Q' E' := by
  unfold Ends at *
  rcases answer : x w with ⟨e | v, w'⟩
  · cases e with
    | fault f => simp only [answer] at h ⊢; exact faults f w' h
    | never => trivial
  · simp only [answer] at h ⊢; exact values v w' h

theorem Ends.value {x : Run α} {v : α} {w' : World} (h : Ends x w Q E) (ok : x w = (.ok v, w')) : Q v w' := by
  unfold Ends at h
  rw [ok] at h
  exact h

theorem Ends.faulted {x : Run α} {f : Fault} {w' : World} (h : Ends x w Q E)
    (failed : x w = (.error (.fault f), w')) : E f w' := by
  unfold Ends at h
  rw [failed] at h
  exact h

theorem endsForM {xs : List β} {f : β → Run Unit} {I : World → Prop} (start : I w)
    (round : ∀ x ∈ xs, ∀ w, I w → Ends (f x) w (fun _ => I) E) : Ends (xs.forM f) w (fun _ => I) E := by
  induction xs generalizing w with
  | nil => exact start
  | cons x xs ih =>
    change Ends (f x >>= fun _ => xs.forM f) w _ _
    rw [endsBind]
    refine (round x List.mem_cons_self w start).mono ?_ (fun _ _ => id)
    intro _ w' kept
    exact ih kept fun y member => round y (List.mem_cons_of_mem x member)

end Run

end QueryMachine
