import QueryMachine.Machine.Number
import QueryMachine.Machine.World
import QueryMachine.Ty.Basic
import Mathlib.Data.List.Forall2
import Mathlib.Data.List.Nodup

/-! Instances of struct types: in each slot lies a value of the representation of its field, which reads as an
object. -/
namespace QueryMachine

namespace Value

def raw? : Value → Option Num
  | .int _ => some .int
  | .long _ => some .long
  | .float _ => some .float
  | .double _ => some .double
  | _ => none

/-- A value that a slot of a representation holds: a number of its kind, or what takes one slot. -/
def Fills (v : Value) : Rep → Prop
  | .prim p => v.raw? = some p.num
  | .void | .ref _ => v.width = 1

theorem rawWidth {v : Value} {k : Num} (raw : v.raw? = some k) : v.width = k.width := by
  cases v <;> cases raw <;> rfl

def Boxes (h : Heap) (t : Ty) (v b : Value) : Prop :=
  match t with
  | .prim p => Number.box h p v = .ok b
  | _ => b = v

theorem Fills.boxes {v : Value} {t : Ty} (fills : v.Fills t.rep) (h : Heap) : ∃ b, v.Boxes h t b := by
  cases t with
  | prim p =>
    change v.raw? = some p.num at fills
    unfold Boxes
    cases p <;> cases v <;> cases fills <;> exact ⟨_, rfl⟩
  | _ => exact ⟨v, rfl⟩

theorem Fills.narrow {v : Value} {t : Ty} (fills : v.Fills t.rep) (reference : t.isPrimitive = false) : v.width = 1 := by
  cases t with
  | prim p => contradiction
  | atom n a => cases a <;> exact fills
  | carrier n c t => cases c <;> exact fills
  | _ => exact fills

theorem Boxes.narrow {v b : Value} {h : Heap} {t : Ty} (boxes : v.Boxes h t b) (fills : v.Fills t.rep) : b.width = 1 := by
  cases t with
  | prim p =>
    change Number.box h p v = .ok b at boxes
    cases p <;> cases v <;> cases fills <;> cases boxes <;> rfl
  | _ =>
    cases boxes
    exact fills.narrow rfl

end Value

namespace Instance

variable {o : Instance} {name : String}

theorem slotAt {i : Nat} (is : o.slot? name = some i) : o.fields[i]? = some name := by
  unfold slot? at is
  obtain ⟨j, found, rfl⟩ := Option.map_eq_some_iff.1 is
  obtain ⟨low, holds, _⟩ := List.findIdx?_eq_some_iff_getElem.1 found
  rw [List.length_reverse] at low
  have here : o.fields.reverse[j]? = some name := by
    rw [List.getElem?_eq_getElem (by simpa using low)]
    exact congrArg some (beq_iff_eq.1 holds)
  rwa [List.getElem?_reverse low] at here

theorem slotSome : (o.slot? name).isSome = true ↔ name ∈ o.fields := by
  unfold slot?
  rw [Option.isSome_map, List.findIdx?_isSome, List.any_eq_true]
  simp

/-- An object of the class of a struct type. -/
structure Of (o : Instance) (cls : String) (fields : List (String × Ty)) : Prop where
  cls : o.cls = cls
  names : o.fields = fields.map (·.1)
  slots : List.Forall₂ (fun f v => v.Fills f.2.rep) fields o.slots

theorem slotIs (distinct : o.fields.Nodup) {i : Nat} (at_ : o.fields[i]? = some name) :
    o.slot? name = some i := by
  obtain ⟨j, slot⟩ := Option.isSome_iff_exists.1 (slotSome.2 (List.mem_of_getElem? at_))
  have same := (List.getElem?_inj (List.getElem?_eq_some_iff.1 at_).1 distinct).1 (at_.trans (slotAt slot).symm)
  rw [slot, same]

theorem Of.reads {cls : String} {fields : List (String × Ty)} (of : o.Of cls fields)
    (distinct : (fields.map (·.1)).Nodup) {f : String × Ty} (inside : f ∈ fields) :
    ∃ v, o.get? f.1 = some v ∧ v.Fills f.2.rep := by
  have named : f.1 ∈ o.fields := of.names ▸ List.mem_map_of_mem inside
  obtain ⟨i, slot⟩ := Option.isSome_iff_exists.1 (slotSome.2 named)
  have here := slotAt slot
  rw [of.names, List.getElem?_map, Option.map_eq_some_iff] at here
  obtain ⟨g, at_, same⟩ := here
  have one : g = f := List.inj_on_of_nodup_map distinct (List.mem_of_getElem? at_) inside same
  subst one
  obtain ⟨low, is⟩ := List.getElem?_eq_some_iff.1 at_
  have low' : i < o.slots.length := of.slots.length_eq ▸ low
  refine ⟨o.slots[i], ?_, ?_⟩
  · rw [get?, slot, Option.map_some, List.getElem?_eq_getElem low']
    rfl
  · have fills := of.slots.get low low'
    rw [List.get_eq_getElem, List.get_eq_getElem, is] at fills
    exact fills

end Instance

end QueryMachine
