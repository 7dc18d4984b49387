import QueryMachine.Proofs.Program.Statement

/-! Entry points whose code uses a class of which there is no unit. They are taken, as nothing is rendered before the
program is built, and then it is refused. -/
namespace QueryMachine

open Build (Ends)

namespace Emit

variable {α β : Type} {o : Op}

def Puts (o : Op) (x : Emit α) : Prop := ∀ fs e v e', x fs e = (.ok v, e') → o ∈ e'.ops

def Passes (o : Op) (x : Emit α) : Prop := ∀ fs e v e', x fs e = (.ok v, e') → o ∈ e.ops → o ∈ e'.ops

theorem putsOp (o : Op) : Puts o (op o) := by
  intro fs e v e' ends
  cases ends
  exact Array.mem_push_self

theorem putsLast {x : Emit α} {f : α → Emit β} (last : ∀ a, Puts o (f a)) : Puts o (x >>= f) := by
  intro fs e v e' ends
  obtain ⟨a, e₁, _, ends⟩ := bindEnds ends
  exact last a fs e₁ v e' ends

theorem Puts.passed {x : Emit α} {f : α → Emit β} (first : Puts o x) (passes : ∀ a, Passes o (f a)) : Puts o (x >>= f) := by
  intro fs e v e' ends
  obtain ⟨a, e₁, before, ends⟩ := bindEnds ends
  exact passes a fs e₁ v e' ends (first fs e a e₁ before)

theorem Passes.bind {x : Emit α} {f : α → Emit β} (first : Passes o x) (second : ∀ a, Passes o (f a)) : Passes o (x >>= f) := by
  intro fs e v e' ends there
  obtain ⟨a, e₁, before, ends⟩ := bindEnds ends
  exact second a fs e₁ v e' ends (first fs e a e₁ before there)

theorem passesOp (p : Op) : Passes o (op p) := by
  intro fs e v e' ends there
  cases ends
  exact Array.mem_push_of_mem p there

theorem passesMark (l : Label) : Passes o (mark l) := by
  intro fs e v e' ends there
  cases ends
  exact there

theorem passesRegion (start stop target : Label) (k : Catch) : Passes o (region start stop target k) := by
  intro fs e v e' ends there
  cases ends
  exact there

theorem passesBox (t : Ty) : Passes o (box t) := by
  cases t with
  | prim p => exact passesOp _
  | _ =>
    intro fs e v e' ends there
    cases ends
    exact there

end Emit

open Emit

theorem outcomePuts {o : Op} {x : Expr} (puts : Puts o x.generate) : Puts o (Build.outcome x).generate := by
  unfold Build.outcome
  refine putsLast fun _ => putsLast fun _ => putsLast fun _ => putsLast fun _ => putsLast fun _ => ?_
  refine puts.passed fun _ => (passesBox _).bind fun _ => (passesOp _).bind fun _ => (passesMark _).bind fun _ => ?_
  exact (passesOp _).bind fun _ => (passesMark _).bind fun _ => (passesOp _).bind fun _ =>
    (passesMark _).bind fun _ => passesRegion _ _ _ _

theorem MethodDraft.putRendered {m : MethodDraft} {x : Expr} {o : Op} (returns : m.returns = .any) (puts : Puts o x.generate)
    {fs : Frames} {h : Heap} {verifying : Bool} {method : Method} (is : (m.withValue x).render fs h verifying = .ok method) :
    o ∈ method.ops.toList := by
  obtain ⟨e, _, _, ends, written⟩ := bodyWritten (m := m.withValue x) rfl returns is
  rw [returns] at ends
  have returned : Puts o (Seq.ret x .any) := by
    unfold Seq.ret Expr.generateAs
    rw [castAny]
    exact (puts.passed fun _ => passesBox _).passed fun _ => passesOp _
  have there := returned _ _ _ _ ends
  rw [written.ops]
  exact Array.mem_toList_iff.2 there

namespace Compiler
variable {c : Compiler}

/-! ### Methods of the program's unit -/

structure Lists (c : Compiler) : Prop where
  own : c.unit.name = unitName
  names : c.unit.methods.map (·.ref.name) = c.signatures.map (·.name)

theorem methodNamed (context : ContextId) (e : Entry) (s : Session) :
    Ends (method context e) s (fun _ _ => True) fun r _ => r.1.ref.name = e.name := by
  have any {α : Type} (x : Build α) (s : Session) : Ends x s (fun _ _ => True) fun _ _ => True := by
    unfold Ends
    split <;> trivial
  unfold method lower
  simp only [Build.endsBind]
  refine (any _ _).mono (fun _ _ _ => (any _ _).mono (fun types _ _ => ?_) fun _ _ h => h) fun _ _ h => h
  refine (show Ends (Build.newMethod unitName e.name none _ .any) _ (fun _ _ => True) fun m _ => m.ref.name = e.name from rfl).mono
    (fun m _ named => ?_) fun _ _ h => h
  cases m.locals with
  | nil => trivial
  | cons timeout locals =>
    simp only [Build.endsBind]
    exact (any _ _).mono (fun _ _ _ => named) fun _ _ h => h

theorem addLists (lists : c.Lists) (e : Entry) : (c.add e).2.Lists := by
  obtain ⟨err, s, is, _⟩ | ⟨m, types, s, unit, answer, added, _, is⟩ := c.addCases e
  · rw [is]
    exact ⟨lists.own, lists.names⟩
  · have named : m.ref.name = e.name := (methodNamed c.context e c.session).ok answer
    rw [is, addMethodIs added]
    refine ⟨lists.own, ?_⟩
    dsimp only
    rw [List.map_append, List.map_append, lists.names, List.map_singleton, List.map_singleton, named]

theorem addAllLists (lists : c.Lists) (es : List Entry) : (c.addAll es).Lists :=
  addAllKeeps (P := Lists) (fun _ e _ lists => addLists lists e) lists

theorem addStays (c : Compiler) (e : Entry) : c.unit.methods ⊆ (c.add e).2.unit.methods := by
  obtain ⟨err, s, is, _⟩ | ⟨m, types, s, unit, answer, added, _, is⟩ := c.addCases e
  · rw [is]
    exact List.Subset.refl _
  · rw [is, addMethodIs added]
    exact List.subset_append_left _ _

theorem addAllStays (c : Compiler) (es : List Entry) : c.unit.methods ⊆ (c.addAll es).unit.methods :=
  addAllKeeps (P := fun c' => c.unit.methods ⊆ c'.unit.methods) (fun c' e _ before => List.Subset.trans before (addStays c' e))
    (List.Subset.refl _)

theorem addTakes (lists : c.Lists) {e : Entry} (new : ∀ sig ∈ c.signatures, sig.name ≠ e.name) {m : MethodDraft}
    {types : List Ty} {s : Session} (made : method c.context e c.session = (.ok (m, types), s)) (cls : m.ref.cls = unitName) :
    (c.add e).1 = .ok () ∧ m ∈ (c.add e).2.unit.methods ∧ (c.add e).2.session = s := by
  have named : m.ref.name = e.name := (methodNamed c.context e c.session).ok made
  have free : c.signatures.any (·.name == e.name) = false := by simpa using new
  have distinct : c.unit.methods.any (·.ref.name == m.ref.name) = false := by
    have same : ∀ ms : List MethodDraft, ms.any (·.ref.name == m.ref.name) = (ms.map (·.ref.name)).any (· == m.ref.name) := by
      intro ms
      rw [List.any_map]
      rfl
    rw [same, lists.names, List.any_map, named]
    exact free
  have taken : c.unit.addMethod m = .ok { c.unit with methods := c.unit.methods ++ [m] } := by
    unfold UnitDraft.addMethod
    rw [cls, distinct]
    simp [lists.own]
  have is : c.add e = (.ok (), { c with
      session := s
      unit := { c.unit with methods := c.unit.methods ++ [m] }
      signatures := c.signatures ++ [⟨e.name, types, e.isStatement⟩] }) := by
    unfold add
    rw [free, show (method c.context e).run c.session = _ from made]
    simp only [taken]
    rfl
  rw [is]
  exact ⟨rfl, List.mem_append_right _ List.mem_cons_self, rfl⟩

theorem danglingRefused (open_ : c.session.built = false) {m : MethodDraft} (inside : m ∈ c.unit.methods) {cls : String}
    (uses : ∀ fs h verifying method, m.render fs h verifying = .ok method → ∃ o ∈ method.ops.toList, o.memberClass? = some cls)
    (absent : ∀ u ∈ Load.unitsOf c.closing, u.name ≠ cls) : c.build.1.isOk = false := by
  rcases built : c.build with ⟨err | ⟨p, w⟩, s⟩
  · rfl
  · obtain ⟨classes, from_⟩ := buildFrom open_ built
    have filled : c.unit.isEmpty = false := by
      unfold UnitDraft.isEmpty
      cases methods : c.unit.methods with
      | nil =>
        rw [methods] at inside
        contradiction
      | cons => simp
    have own : c.unit ∈ Load.unitsOf c.closing := by
      refine List.mem_filter.2 ⟨?_, by rw [filled]; rfl⟩
      exact List.mem_append_left _ (List.mem_append_right _ List.mem_cons_self)
    obtain ⟨d, member, rendered⟩ := Load.pairedRight from_.rendered own
    obtain ⟨methods, same⟩ := UnitDraft.renderIs rendered
    obtain ⟨method, there, renders⟩ := Load.pairedRight methods inside
    have name : d.name = c.unit.name := by rw [same]
    obtain ⟨d', member', is⟩ := from_.closed d member cls (Class.dependenciesIff.2
      ⟨⟨method, there, uses _ _ _ _ renders⟩, fun same => absent c.unit own (name.symm.trans same.symm)⟩)
    obtain ⟨u, source, rendered'⟩ := Load.pairedLeft from_.rendered member'
    have name' : d'.name = u.name := by rw [(UnitDraft.renderIs rendered').2]
    exact absurd (name'.symm.trans is) (absent u source)

end Compiler
end QueryMachine
