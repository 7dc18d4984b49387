import QueryMachine.Code.Fragment
import QueryMachine.Proofs.Verifier.Assignment

/-! Code as it is written, operations with the places of labels between them, and the depths that flow through
it. Code through which depths flow from an empty stack is accepted by the verifier. -/
namespace QueryMachine

open Verify (after)

abbrev Asm := List Fragment.Item

namespace Asm

def ops : Asm → List Op
  | [] => []
  | .op o :: A => o :: ops A
  | .mark _ :: A => ops A

def marks (pc : Nat) : Asm → List (Label × Nat)
  | [] => []
  | .op _ :: A => marks (pc + 1) A
  | .mark l :: A => (l, pc) :: marks pc A

@[simp] theorem opsNil : ops [] = [] := rfl

@[simp] theorem opsOp {o : Op} {A : Asm} : ops (.op o :: A) = o :: ops A := rfl

@[simp] theorem opsMark {l : Label} {A : Asm} : ops (.mark l :: A) = ops A := rfl

@[simp] theorem opsAppend (A B : Asm) : ops (A ++ B) = ops A ++ ops B := by
  induction A with
  | nil => rfl
  | cons item A ih => cases item <;> simp [ih]

@[simp] theorem marksNil {pc : Nat} : marks pc [] = [] := rfl

@[simp] theorem marksOp {pc : Nat} {o : Op} {A : Asm} : marks pc (.op o :: A) = marks (pc + 1) A := rfl

@[simp] theorem marksMark {pc : Nat} {l : Label} {A : Asm} : marks pc (.mark l :: A) = (l, pc) :: marks pc A := rfl

@[simp] theorem marksAppend (A B : Asm) (pc : Nat) :
    marks pc (A ++ B) = marks pc A ++ marks (pc + A.ops.length) B := by
  induction A generalizing pc with
  | nil => rfl
  | cons item A ih =>
    cases item with
    | op o =>
      simp only [List.cons_append, marksOp, ih, opsOp, List.length_cons]
      rw [Nat.add_right_comm, Nat.add_assoc]
    | mark l => simp [ih]

theorem marksLow {A : Asm} {start p : Nat} {l : Label} (marked : (l, p) ∈ marks start A) : start ≤ p := by
  induction A generalizing start with
  | nil => simp at marked
  | cons item A ih =>
    cases item with
    | op o => exact Nat.le_of_succ_le (ih marked)
    | mark l' =>
      rcases List.mem_cons.1 marked with here | later
      · exact Nat.le_of_eq (Prod.mk.inj here).2.symm
      · exact ih later

end Asm

structure Limits where
  locals : Nat
  returns : Nat
  knows : String → Prop

structure Limits.Allows (b : Limits) (depth : Nat) (o : Op) : Prop where
  enough : o.effect.1 ≤ depth
  slots : ∀ first last, Verify.slots? o = some (first, last) → last < b.locals
  returns : ∀ n, o = .ret n → depth = n ∧ n = b.returns
  member : ∀ cls, o.memberClass? = some cls → b.knows cls

def fallDepth (o : Op) (depth : Nat) : Option Nat := if o.fallsThrough then some (after o depth) else none

def Flows (b : Limits) (G : Label → Nat) : Asm → Option Nat → Option Nat → Prop
  | [], c, c' => c = c'
  | .op o :: A, none, c' => (∀ cls, o.memberClass? = some cls → b.knows cls) ∧ Flows b G A none c'
  | .op o :: A, some d, c' =>
    b.Allows d o ∧ (∀ l ∈ o.targets, G l = after o d) ∧ Flows b G A (fallDepth o d) c'
  | .mark l :: A, c, c' => (c = none ∨ c = some (G l)) ∧ Flows b G A (some (G l)) c'

theorem flowsAppend {b : Limits} {G : Label → Nat} {A B : Asm} {c c' c'' : Option Nat}
    (first : Flows b G A c c') (second : Flows b G B c' c'') : Flows b G (A ++ B) c c'' := by
  induction A generalizing c with
  | nil =>
    cases first
    exact second
  | cons item A ih =>
    cases item with
    | op o =>
      cases c with
      | none => exact ⟨first.1, ih first.2⟩
      | some d => exact ⟨first.1, first.2.1, ih first.2.2⟩
    | mark l => exact ⟨first.1, ih first.2⟩

theorem flowsMembers {b : Limits} {G : Label → Nat} {A : Asm} {c c' : Option Nat} (flows : Flows b G A c c') {o : Op}
    (inside : o ∈ A.ops) {cls : String} (member : o.memberClass? = some cls) : b.knows cls := by
  induction A generalizing c with
  | nil => simp at inside
  | cons item A ih =>
    cases item with
    | op o' =>
      rw [Asm.opsOp, List.mem_cons] at inside
      cases c with
      | none =>
        rcases inside with rfl | later
        · exact flows.1 cls member
        · exact ih flows.2 later
      | some d =>
        rcases inside with rfl | later
        · exact flows.1.member cls member
        · exact ih flows.2.2 later
    | mark l => exact ih flows.2 inside

/-! ### From code to an assignment of depths -/

def trail (G : Label → Nat) : Asm → Option Nat → List (Option Nat)
  | [], _ => []
  | .op o :: A, c => c :: trail G A (c.bind (fallDepth o))
  | .mark l :: A, _ => trail G A (some (G l))

theorem trailStart {b : Limits} {G : Label → Nat} {A : Asm} {c' : Option Nat} {d : Nat}
    (flows : Flows b G A (some d) c') : (trail G A (some d) ++ [c'])[0]? = some (some d) := by
  induction A with
  | nil =>
    cases flows
    rfl
  | cons item A ih =>
    cases item with
    | op o => rfl
    | mark l =>
      obtain ⟨same, rest⟩ := flows
      rcases same with none | same
      · contradiction
      · cases same
        exact ih rest

theorem trailObeys {b : Limits} {G : Label → Nat} {A : Asm} {c c' : Option Nat} (flows : Flows b G A c c')
    {pc d : Nat} (found : (trail G A c)[pc]? = some (some d)) :
    ∃ o, A.ops[pc]? = some o ∧ b.Allows d o ∧ (∀ l ∈ o.targets, G l = after o d) ∧
      (o.fallsThrough = true → (trail G A c ++ [c'])[pc + 1]? = some (some (after o d))) := by
  induction A generalizing c pc with
  | nil => simp [trail] at found
  | cons item A ih =>
    cases item with
    | op o =>
      cases c with
      | none =>
        cases pc with
        | zero => simp [trail] at found
        | succ pc => exact ih flows.2 found
      | some e =>
        obtain ⟨allows, targets, rest⟩ := flows
        cases pc with
        | zero =>
          cases found
          refine ⟨o, rfl, allows, targets, ?_⟩
          intro falls
          have next : fallDepth o d = some (after o d) := if_pos falls
          simp only [trail, Option.bind_some, next] at rest ⊢
          exact trailStart rest
        | succ pc => exact ih rest found
    | mark l => exact ih flows.2 found

theorem trailMarks {b : Limits} {G : Label → Nat} {A : Asm} {c c' : Option Nat} (flows : Flows b G A c c')
    {l : Label} {start p : Nat} (marked : (l, start + p) ∈ Asm.marks start A) :
    (trail G A c ++ [c'])[p]? = some (some (G l)) := by
  induction A generalizing c start p with
  | nil => simp at marked
  | cons item A ih =>
    cases item with
    | op o =>
      rw [Asm.marksOp] at marked
      cases p with
      | zero =>
        have low := Asm.marksLow marked
        omega
      | succ p =>
        have shifted : (l, start + 1 + p) ∈ Asm.marks (start + 1) A := by
          rw [Nat.add_assoc, Nat.add_comm 1 p]
          exact marked
        cases c with
        | none => exact ih flows.2 shifted
        | some e => exact ih flows.2.2 shifted
    | mark l' =>
      rw [Asm.marksMark] at marked
      rcases List.mem_cons.1 marked with here | later
      · obtain ⟨rfl, same⟩ := Prod.mk.inj here
        cases p with
        | zero => exact trailStart flows.2
        | succ p => omega
      · exact ih flows.2 later

theorem allowedOp {b : Limits} {t : Verify.Candidate} (locals : b.locals = t.maxLocals)
    (returns : b.returns = t.returnWidth) {pc depth : Nat} {o : Op} (allows : b.Allows depth o) :
    Verify.checkOp t pc depth o = .ok () := by
  unfold Verify.checkOp
  rw [if_neg (Nat.not_lt.2 allows.enough)]
  split
  · next first last slots =>
    have low := allows.slots first last slots
    rw [if_neg (by omega)]
  · split
    · next n _ => exact if_pos ⟨(allows.returns n rfl).1, returns ▸ (allows.returns n rfl).2⟩
    · rfl

structure Guards (G : Label → Nat) (A : Asm) (position : Label → Nat) (h : Handler) : Prop where
  start : (h.start, position h.start) ∈ Asm.marks 0 A
  target : (h.target, position h.target) ∈ Asm.marks 0 A
  empty : G h.start = 0
  single : G h.target = 1

theorem flowsConsistent {b : Limits} {G : Label → Nat} {A : Asm} {t : Verify.Candidate}
    (flows : Flows b G A (some 0) none) (ops : t.ops.toList = A.ops) (locals : b.locals = t.maxLocals)
    (returns : b.returns = t.returnWidth)
    (placed : ∀ o ∈ A.ops, ∀ l ∈ o.targets, (l, t.position l) ∈ Asm.marks 0 A)
    (guards : ∀ h ∈ t.handlers, Guards G A t.position h) : ∃ D, Verify.Consistent t D := by
  let D : Nat → Option Nat := fun pc => (trail G A (some 0))[pc]?.join
  have known : ∀ {pc d}, (trail G A (some 0) ++ [none])[pc]? = some (some d) → D pc = some d := by
    intro pc d found
    rw [List.getElem?_append] at found
    split at found
    · simp only [D, found, Option.join_some]
    · cases n : pc - (trail G A (some 0)).length <;> simp [n] at found
  have marked : ∀ {l}, (l, t.position l) ∈ Asm.marks 0 A → D (t.position l) = some (G l) := by
    intro l here
    have here : (l, 0 + t.position l) ∈ Asm.marks 0 A := by rwa [Nat.zero_add]
    exact known (trailMarks flows here)
  refine ⟨D, known (trailStart flows), ?_, ?_, ?_⟩
  · intro h member
    rw [marked (guards h member).target, (guards h member).single]
  · intro pc depth found
    have inside : (trail G A (some 0))[pc]? = some (some depth) := by
      simpa [D, Option.join_eq_some_iff] using found
    obtain ⟨o, here, allows, targets, falls⟩ := trailObeys flows inside
    refine ⟨o, ?_, allowedOp locals returns allows, ?_, fun falling => known (falls falling)⟩
    · rw [← Array.getElem?_toList, ops]
      exact here
    · intro l target
      rw [marked (placed o (List.mem_of_getElem? here) l target), targets l target]
  · intro h member depth found
    rw [marked (guards h member).start, (guards h member).empty] at found
    cases found
    rfl

end QueryMachine
