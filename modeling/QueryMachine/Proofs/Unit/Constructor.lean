import QueryMachine.Proofs.Unit.Setter

/-! Constructors of struct types, which put each argument where its field is, and the lists of their names. -/
namespace QueryMachine

open Emit (Out)

namespace Heap

theorem newObjectSet (h : Heap) (o o' : Instance) : (h.newObject o).2.setObject h.objects.size o' = (h.newObject o').2 := by
  simp [newObject, setObject, Array.setIfInBounds, Array.set_push]

theorem newObjectIs (h : Heap) (o : Instance) : (h.newObject o).2.object h.objects.size = o := by
  simp [newObject, object]

theorem newListSet (h : Heap) (items items' : Array Value) :
    (h.newList items).2.setList h.lists.size items' = (h.newList items').2 := by
  simp [newList, setList, Array.setIfInBounds, Array.set_push]

theorem newListIs (h : Heap) (items : Array Value) : (h.newList items).2.list h.lists.size = items := by
  simp [newList, list]

end Heap

namespace Struct

open Machine

/-! ### Code -/

def loadOf (t : Ty) (slot : Nat) : Op := if t.width = 2 then .load2 slot else .load slot

def initCode (cls : String) (items : List ((String × Ty) × Nat)) : Asm :=
  items.flatMap fun x => [.op (.dup 1), .op (loadOf x.1.2 x.2), .op (.putField (fieldRef cls x.1))]

def newCode (cls : String) (items : List ((String × Ty) × Nat)) : Asm :=
  [.op (.new cls)] ++ initCode cls items ++ [.op (.ret 1)]

def namesCode (names : List String) : Asm :=
  [.op (.native .newList)] ++
    (names.flatMap fun n => [.op (.dup 1), .op (.const (.string n)), .op (.native .listAdd)]) ++ [.op (.ret 1)]

theorem flatUnlabelled {ι : Type} {items : List ι} {f : ι → Asm} (none : ∀ i, (f i).labels = []) :
    Asm.labels (items.flatMap f) = [] := by
  induction items with
  | nil => rfl
  | cons i items ih => rw [List.flatMap_cons, Asm.labelsAppend, none, ih, List.append_nil]

theorem newUnlabelled (cls : String) (items : List ((String × Ty) × Nat)) : (newCode cls items).labels = [] := by
  unfold newCode initCode
  rw [Asm.labelsAppend, Asm.labelsAppend, flatUnlabelled fun _ => rfl]
  rfl

theorem namesUnlabelled (names : List String) : (namesCode names).labels = [] := by
  unfold namesCode
  rw [Asm.labelsAppend, Asm.labelsAppend, flatUnlabelled fun _ => rfl]
  rfl

section Emission

variable {E : Error → Prop} {fs : Frames} {e : Emitter} {σ : Slots}

theorem outConstructor {cls : String} {fields : List (String × Ty)} {args : List Local}
    (holds : ∀ l ∈ args, ∃ s, σ.find? l = some s) (wrote : e.Wrote σ [] 0) :
    Out (constructorBody cls fields args) fs e E fun _ e' =>
      e'.Wrote σ (newCode cls ((fields.zip args).map fun x => (x.1, (σ.find? x.2).getD 0))) 0 := by
  unfold constructorBody
  simp only [Emit.outBind]
  refine wrote.outOp ?_
  intro e₁ wrote
  refine Emitter.Wrote.outForM (g := fun x : (String × Ty) × Local => [.op (.dup 1),
    .op (loadOf x.1.2 ((σ.find? x.2).getD 0)), .op (.putField (fieldRef cls x.1))]) ?_ wrote ?_
  · intro x inside e A Q wrote next
    obtain ⟨s, found⟩ := holds x.2 (List.of_mem_zip inside).2
    simp only [Emit.outBind]
    refine wrote.outOp ?_
    intro e₂ wrote
    refine wrote.outSlot found ?_
    refine Emitter.Wrote.outOp (o := loadOf x.1.2 s) wrote ?_
    intro e₃ wrote
    refine wrote.outOp ?_
    intro e₄ wrote
    refine next e₄ ?_
    rw [found]
    simpa using wrote
  · intro e₂ wrote
    refine wrote.outOp ?_
    intro e₃ wrote
    simpa [newCode, initCode, List.flatMap_map] using wrote

theorem outNames {fields : List (String × Ty)} (wrote : e.Wrote σ [] 0) :
    Out (namesBody fields) fs e E fun _ e' => e'.Wrote σ (namesCode (fields.map (·.1))) 0 := by
  unfold namesBody
  simp only [Emit.outBind]
  refine wrote.outOp ?_
  intro e₁ wrote
  refine Emitter.Wrote.outForM (g := fun f : String × Ty => [.op (.dup 1), .op (.const (.string f.1)),
    .op (.native .listAdd)]) (fun f _ e A Q wrote next => wrote.outOps next) wrote ?_
  intro e₂ wrote
  refine wrote.outOp ?_
  intro e₃ wrote
  simpa [namesCode, List.flatMap_map] using wrote

end Emission

/-! ### Runs -/

section Runs

variable {θ : Thread} {p q : Nat} {s : Stack} {ls : List Value} {w : World} {cls : String}

theorem loads {m : Method} {h : Heap} {t : Ty} {i : Nat} {v : Value} (is : ls[i]? = some v) (fills : v.Fills t.rep) :
    core h m (loadOf t i) s ls = some (.ok (.next (push v s) ls)) := by
  unfold loadOf
  cases two : decide (t.width = 2) with
  | true =>
    rw [if_pos (of_decide_eq_true two)]
    simp [core, is]
  | false =>
    have narrow := of_decide_eq_false two
    have one : ¬ v.width = 2 := by
      intro wide
      refine narrow ?_
      unfold Ty.width
      cases rep : t.rep with
      | prim k =>
        rw [rep] at fills
        exact (Value.rawWidth fills).symm.trans wide
      | _ =>
        rw [rep] at fills
        rw [show v.width = 1 from fills] at wide
        contradiction
    rw [if_neg narrow]
    simp [core, is, push, one]

theorem initGoes {names : List String} {items : List ((String × Ty) × Nat)} {todo vs : List Value} (pre : List String)
    (done : List Value)
    (all : names = pre ++ items.map (·.1.1)) (distinct : names.Nodup) (at_ : done.length = pre.length)
    (left : todo.length = items.length) (given : List.Forall₂ (fun x v => ls[x.2]? = some v ∧ v.Fills x.1.2.rep) items vs)
    (spans : θ.method.Spans p (initCode cls items) q) :
    θ.Course ⟨p, [.object w.heap.objects.size], ls, { w with heap := (w.heap.newObject ⟨cls, names, done ++ todo⟩).2 }⟩
      (.ok ⟨q, [.object w.heap.objects.size], ls, { w with heap := (w.heap.newObject ⟨cls, names, done ++ vs⟩).2 }⟩) := by
  induction given generalizing p pre done todo with
  | nil =>
    cases spans
    rw [List.eq_nil_of_length_eq_zero left]
    exact .refl _
  | @cons x v items vs here _ ih =>
    obtain ⟨old, todo, rfl⟩ := List.exists_cons_of_length_eq_add_one left
    obtain ⟨mid, ⟨dup, load, put, rfl⟩, rest⟩ := Method.spansAppend.1 spans
    obtain ⟨is, fills⟩ := here
    have changed : ((w.heap.newObject ⟨cls, names, done ++ old :: todo⟩).2.object w.heap.objects.size).put? x.1.1 v =
        some ⟨cls, names, (done ++ [v]) ++ todo⟩ := by
      have slot : Instance.slot? ⟨cls, names, done ++ old :: todo⟩ x.1.1 = some done.length :=
        Instance.slotIs distinct (by simp [all, at_])
      rw [Heap.newObjectIs, Instance.put?, slot]
      simp
    have stored : θ.Course ⟨p + 1 + 1, push v [.object w.heap.objects.size, .object w.heap.objects.size], ls,
        { w with heap := (w.heap.newObject ⟨cls, names, done ++ old :: todo⟩).2 }⟩ _ := stores put fills changed
    rw [Heap.newObjectSet] at stored
    refine (Thread.next dup rfl).trans ((Thread.next load (loads is fills)).trans (stored.trans ?_))
    rw [List.append_cons done v vs]
    refine ih (pre ++ [x.1.1]) (done ++ [v]) ?_ (by simp [at_]) (Nat.succ.inj left) rest
    rw [all]
    simp

theorem newFinishes {c : Class} {names : List String} {items : List ((String × Ty) × Nat)} {todo vs : List Value}
    (found : θ.library.class? cls = some c) (made : c.instantiate = ⟨cls, names, todo⟩) (all : names = items.map (·.1.1))
    (distinct : names.Nodup) (left : todo.length = items.length)
    (given : List.Forall₂ (fun x v => ls[x.2]? = some v ∧ v.Fills x.1.2.rep) items vs)
    (spans : θ.method.Spans 0 (newCode cls items) q) :
    θ.Finishes ⟨0, [], ls, w⟩ (.ok (.object w.heap.objects.size))
      { w with heap := (w.heap.newObject ⟨cls, names, vs⟩).2 } := by
  obtain ⟨last, front, return_, _⟩ := Method.spansAppend.1 spans
  obtain ⟨mid, ⟨new, rfl⟩, init⟩ := Method.spansAppend.1 front
  have makes : θ.Course ⟨0, [], ls, w⟩ (.ok ⟨1, [.object w.heap.objects.size], ls,
      { w with heap := (w.heap.newObject ⟨cls, names, todo⟩).2 }⟩) := by
    refine Scene.outers (θ := θ.scene) new rfl ?_
    intro call apply
    have known : classNamed θ.library cls = .ok c := by
      unfold classNamed
      rw [found]
    change (Run.lift (classNamed θ.library cls) >>= _ : Run Stack) w = _
    rw [known, ← made]
    rfl
  have puts := initGoes (w := w) [] [] all distinct rfl left given init
  exact (makes.trans puts).finishes (Thread.finishesReturn return_)

theorem appends (ls : List Value) (item : Value) (a : Address) (here : θ.method.ops[p]? = some (.native .listAdd)) :
    θ.Course ⟨p, item :: .list a :: s, ls, w⟩
      (.ok ⟨p + 1, s, ls, { w with heap := w.heap.setList a ((w.heap.list a).push item) }⟩) :=
  Scene.outers (θ := θ.scene) here rfl fun _ _ => rfl

theorem namesGo {names : List String} (done : List String)
    (spans : θ.method.Spans p (names.flatMap fun n => [.op (.dup 1), .op (.const (.string n)), .op (.native .listAdd)]) q) :
    θ.Course ⟨p, [.list w.heap.lists.size], ls, { w with heap := (w.heap.newList (done.map Value.string).toArray).2 }⟩
      (.ok ⟨q, [.list w.heap.lists.size], ls,
        { w with heap := (w.heap.newList ((done ++ names).map Value.string).toArray).2 }⟩) := by
  induction names generalizing p done with
  | nil =>
    cases spans
    rw [List.append_nil]
    exact .refl _
  | cons n names ih =>
    obtain ⟨mid, ⟨dup, const, add, rfl⟩, rest⟩ := Method.spansAppend.1 spans
    have added := appends (s := [.list w.heap.lists.size]) ls (.string n) w.heap.lists.size
      (w := { w with heap := (w.heap.newList (done.map Value.string).toArray).2 }) add
    rw [Heap.newListIs, Heap.newListSet,
      show (done.map Value.string).toArray.push (.string n) = ((done ++ [n]).map Value.string).toArray by simp] at added
    rw [List.append_cons done n names]
    exact (Thread.next dup rfl).trans ((Thread.next const rfl).trans (added.trans (ih (done ++ [n]) rest)))

theorem namesFinish {names : List String} (spans : θ.method.Spans 0 (namesCode names) q) :
    θ.Finishes ⟨0, [], ls, w⟩ (.ok (.list w.heap.lists.size))
      { w with heap := (w.heap.newList (names.map Value.string).toArray).2 } := by
  obtain ⟨last, front, return_, _⟩ := Method.spansAppend.1 spans
  obtain ⟨mid, ⟨new, rfl⟩, adds⟩ := Method.spansAppend.1 front
  have makes : θ.Course ⟨0, [], ls, w⟩ (.ok ⟨1, [.list w.heap.lists.size], ls,
      { w with heap := (w.heap.newList #[]).2 }⟩) := Scene.outers (θ := θ.scene) new rfl fun _ _ => rfl
  exact (makes.trans (namesGo (w := w) [] adds)).finishes (Thread.finishesReturn return_)

end Runs

end Struct

end QueryMachine
