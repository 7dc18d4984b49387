import QueryMachine.Proofs.Unit.Switching
import QueryMachine.Proofs.Value.Instance

/-! Runs of accessors. A name leads to the section of the field that is the same in upper case, whatever the hashes of
the names are, and the getter returns that field as an object. -/
namespace QueryMachine

namespace Machine

theorem pushOne {v : Value} (narrow : v.width = 1) (s : Stack) : push v s = v :: s := by
  rw [push, narrow, if_neg (by decide)]

theorem popFills {v : Value} {r : Rep} (fills : v.Fills r) (s : Stack) : popSized r.width (push v s) = .ok (v, s) := by
  cases r with
  | prim k =>
    have width : v.width = k.width := Value.rawWidth fills
    change popSized k.width (push v s) = _
    unfold popSized push
    rw [width]
    split <;> rfl
  | _ =>
    rw [pushOne fills]
    rfl

namespace Thread

variable {θ : Thread} {p q : Nat} {s : Stack} {ls : List Value} {w : World}

theorem boxes {t : Ty} {v b : Value} (spans : θ.method.Spans p (Asm.box t) q) (fills : v.Fills t.rep)
    (is : v.Boxes w.heap t b) : θ.Course ⟨p, push v s, ls, w⟩ (.ok ⟨q, b :: s, ls, w⟩) := by
  cases t with
  | prim k =>
    obtain ⟨here, rfl⟩ := spans
    refine next here ?_
    have popped : popSized k.width (push v s) = .ok (v, s) := popFills fills s
    change Number.box w.heap k v = .ok b at is
    simp only [core, popped, is, bind, Except.bind]
  | _ =>
    cases spans
    cases is
    rw [pushOne (fills.narrow rfl)]
    exact .refl _

end Thread

end Machine

namespace Struct

open Machine Machine.Thread

variable {θ : Thread} {p q : Nat} {ls : List Value} {w : World} {cls : String} {fields : List (String × Ty)}

def upper? (fields : List (String × Ty)) (name : String) : Option (String × Ty) :=
  fields.find? fun f => Text.Uppercase.text f.1 == Text.Uppercase.text name

theorem accessorGoes {slot held : Nat} {found : String × Ty → Asm} {name : String}
    (spans : θ.method.Spans 0 (dispatchCode fields slot held found) q) (low : held < ls.length) (apart : slot ≠ held)
    (holds : ls[slot]? = some (.string name)) :
    match upper? fields name with
    | some f => ∃ p q, θ.method.Spans p (found f) q ∧
      θ.Course ⟨0, [], ls, w⟩ (.ok ⟨p, [], ls.set held (.string (Text.Uppercase.text name)), w⟩)
    | none => θ.Course ⟨0, [], ls, w⟩ (.error (.propertyNotFound name, w)) := by
  obtain ⟨last, front, missing⟩ := Method.spansAppend.1 spans
  obtain ⟨mid, start, sections⟩ := Method.spansAppend.1 front
  obtain ⟨load, switch⟩ := start
  obtain ⟨mark, again, fault, throw, _⟩ := missing
  have loaded : core w.heap θ.method (.load slot) [] ls = some (.ok (.next [.string name] ls)) := by simp [core, holds]
  have kept : (ls.set held (.string (Text.Uppercase.text name)))[slot]? = some (.string name) := by
    rw [List.getElem?_set_ne (Ne.symm apart), holds]
  have reloaded : core w.heap θ.method (.load slot) [] (ls.set held (.string (Text.Uppercase.text name))) =
      some (.ok (.next [.string name] (ls.set held (.string (Text.Uppercase.text name))))) := by simp [core, kept]
  have length : (bucketLabels fields).length = (Emit.buckets (casesOf fields)).length := by simp [bucketLabels]
  have dispatched : θ.Course ⟨1, [.string name], ls, w⟩ (.ok ⟨θ.method.position (Emit.caseOf (casesOf fields) 0 name), [],
      ls.set held (.string (Text.Uppercase.text name)), w⟩) := switchGoes (θ := θ.scene) length low switch
  have course := (next load loaded).trans dispatched
  have firsts : (fields.zip (List.range' 1 fields.length)).map (·.1) = fields := List.map_fst_zip (by simp)
  have same : upper? fields name = ((fields.zip (List.range' 1 fields.length)).find? fun x =>
      Text.Uppercase.text x.1.1 == Text.Uppercase.text name).map (·.1) := by
    unfold upper?
    conv_lhs => rw [← firsts, List.find?_map]
    rfl
  have label : Emit.caseOf (casesOf fields) 0 name = (((fields.zip (List.range' 1 fields.length)).find? fun x =>
      Text.Uppercase.text x.1.1 == Text.Uppercase.text name).map (·.2)).getD 0 := by
    unfold Emit.caseOf casesOf
    rw [List.find?_map, Option.map_map]
    rfl
  rw [label] at course
  rw [same]
  cases chosen : (fields.zip (List.range' 1 fields.length)).find? fun x =>
      Text.Uppercase.text x.1.1 == Text.Uppercase.text name with
  | some x =>
    rw [chosen] at course
    have inside := List.mem_of_find?_eq_some chosen
    obtain ⟨q, spans⟩ := spansSections sections inside
    exact ⟨_, q, spans, course⟩
  | none =>
    rw [chosen] at course
    refine course.trans ?_
    change θ.Course ⟨θ.method.position 0, [], _, w⟩ _
    rw [mark]
    exact (next again reloaded).trans ((calls fault rfl).trans (faults throw rfl))

theorem getFinishes {self : Nat} {f : String × Ty} {o : Address} {v b : Value} (spans : θ.method.Spans p (getCode cls self f) q)
    (holds : ls[self]? = some (.object o)) (is : (w.heap.object o).get? f.1 = some v) (fills : v.Fills f.2.rep)
    (boxed : v.Boxes w.heap f.2 b) : θ.Finishes ⟨p, [], ls, w⟩ (.ok b) w := by
  obtain ⟨last, front, return_⟩ := Method.spansAppend.1 spans
  obtain ⟨mid, start, box⟩ := Method.spansAppend.1 front
  obtain ⟨load, get, rfl⟩ := start
  have loaded : core w.heap θ.method (.load self) [] ls = some (.ok (.next [.object o] ls)) := by simp [core, holds]
  refine ((next load loaded).trans ((reads get is).trans (boxes box fills boxed))).finishes ?_
  exact finishesReturn return_.1

theorem getterFinishes {self slot held : Nat} {name : String} {o : Address}
    (lays : θ.method.Lays (dispatchCode fields slot held (getCode cls self))) (low : held < ls.length) (apart : slot ≠ held)
    (apart' : self ≠ held) (holdsName : ls[slot]? = some (.string name)) (holdsThis : ls[self]? = some (.object o)) :
    match upper? fields name with
    | some f => ∀ v b, (w.heap.object o).get? f.1 = some v → v.Fills f.2.rep → v.Boxes w.heap f.2 b →
      θ.Finishes ⟨0, [], ls, w⟩ (.ok b) w
    | none => θ.Finishes ⟨0, [], ls, w⟩ (.error (.propertyNotFound name)) w := by
  have goes := accessorGoes (w := w) lays.spans low apart holdsName
  cases found : upper? fields name with
  | none =>
    rw [found] at goes
    exact goes.raises
  | some f =>
    rw [found] at goes
    obtain ⟨p, q, spans, course⟩ := goes
    have kept : (ls.set held (.string (Text.Uppercase.text name)))[self]? = some (.object o) := by
      rw [List.getElem?_set_ne (Ne.symm apart'), holdsThis]
    exact fun v b is fills boxed => course.finishes (getFinishes spans kept is fills boxed)

end Struct

end QueryMachine
