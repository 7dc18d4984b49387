import QueryMachine.Proofs.Machine.Mirror
import QueryMachine.Proofs.Unit.Rendering

/-! Loading two sets of units that differ in the code of one. They are loaded in one order if both codes use the same
classes, so what is loaded differs in the class of that unit only, and the states they start in do not differ. -/
namespace QueryMachine

structure Class.Twins (host : String) (c c' : Class) : Prop where
  name : c'.name = c.name
  statics : c'.statics = c.statics
  dependencies : c'.dependencies = c.dependencies
  other : c.name ≠ host → c' = c

namespace Load

open Build (Ends)

section Pairs

variable {α β : Type} {R : α → β → Prop} {xs : List α} {ys : List β}

theorem pairedAt (all : List.Forall₂ R xs ys) (i : Nat) : Option.Rel R xs[i]? ys[i]? := by
  induction all generalizing i with
  | nil => exact .none
  | cons first _ ih =>
    cases i with
    | zero => exact .some first
    | succ i => exact ih i

theorem pairedOrder (all : List.Forall₂ R xs ys) (order : List Nat) :
    List.Forall₂ R (order.filterMap (xs[·]?)) (order.filterMap (ys[·]?)) := by
  refine List.rel_filterMap (R := Eq) ?_ (List.forall₂_refl order)
  rintro i _ rfl
  exact pairedAt all i

theorem foldlSame {σ : Type} {f : σ → α → σ} {g : σ → β → σ} (all : List.Forall₂ R xs ys)
    (same : ∀ a b, R a b → ∀ w, g w b = f w a) (w : σ) : ys.foldl g w = xs.foldl f w := by
  induction all generalizing w with
  | nil => rfl
  | cons first _ ih => rw [List.foldl_cons, List.foldl_cons, same _ _ first, ih]

end Pairs

variable {host : String} {classes classes' : List Class} {s : Session}

/-! ### Order -/

theorem namesTwin (all : List.Forall₂ (Class.Twins host) classes classes') :
    classes'.map (·.name) = classes.map (·.name) := by
  induction all with
  | nil => rfl
  | cons first _ ih => rw [List.map_cons, List.map_cons, ih, first.name]

theorem usesTwin (all : List.Forall₂ (Class.Twins host) classes classes') : uses classes' = uses classes := by
  have found (cs : List Class) (name : String) : cs.reverse.findIdx? (·.name == name) =
      (cs.map (·.name)).reverse.findIdx? (· == name) := by
    rw [← List.map_reverse, List.findIdx?_map]
    rfl
  funext i
  unfold uses
  simp only [found, namesTwin all, all.length_eq]
  have paired := pairedAt all i
  generalize classes[i]? = c, classes'[i]? = c' at paired
  cases paired with
  | none => rfl
  | some twins => simp only [twins.dependencies]

theorem orderTwin (all : List.Forall₂ (Class.Twins host) classes classes') : order classes' = order classes := by
  unfold order
  rw [usesTwin all, all.length_eq]

/-! ### What is loaded -/

def preparedIn (w : World) (u : UnitDraft) : World := u.prepare.foldl (fun w x => (w.setStatic u.name x.1 x.2).2) w

structure From (s : Session) (classes : List Class) (l : Loaded) : Prop where
  rendered : List.Forall₂ (fun u c => u.render s.frames s.heap s.config.verify = .ok c) (unitsOf s) classes
  library : l.library.classes = (order classes).filterMap (classes[·]?)
  distinct : (l.library.classes.map (·.name)).Nodup
  closed : ∀ c ∈ classes, ∀ name ∈ c.dependencies, ∃ d ∈ classes, d.name = name
  world : l.world = ((order classes).filterMap ((unitsOf s)[·]?)).foldl preparedIn
    (((order classes).filterMap (classes[·]?)).foldl World.declare (World.empty s.heap))

theorem From.classFound {s : Session} {classes : List Class} {l : Loaded} (is : From s classes l) {u : UnitDraft}
    (inside : u ∈ unitsOf s) : ∃ c, u.render s.frames s.heap s.config.verify = .ok c ∧ l.library.class? u.name = some c := by
  obtain ⟨c, member, renders⟩ := pairedRight is.rendered inside
  have there : c ∈ l.library.classes := by
    rw [is.library]
    exact (orderPerm classes rfl).mem_iff.2 member
  have name : c.name = u.name := by rw [(UnitDraft.renderIs renders).2]
  refine ⟨c, renders, ?_⟩
  rw [← name]
  exact findUnique is.distinct there

theorem dumpFails {α : Type} (unit listing : String) (err : Error) (Q : α → Session → Prop) :
    Ends (dump unit listing err) s (fun _ _ => True) Q := by
  unfold dump
  rw [Build.endsBind, Build.endsGet]
  cases s.config.dumpDirectory.isSome <;> trivial

theorem renderIs (u : UnitDraft) : Ends (render u) s (fun _ _ => True) fun c s' => s' = s ∧
    u.render s.frames s.heap s.config.verify = .ok c := by
  unfold render
  rw [Build.endsBind, Build.endsGet]
  cases u.render s.frames s.heap s.config.verify with
  | ok c => exact ⟨rfl, rfl⟩
  | error r =>
    dsimp only
    split
    · exact dumpFails _ _ _ _
    · trivial

theorem renderAllIs (units : List UnitDraft) : Ends (units.mapM render) s (fun _ _ => True) fun cs s' => s' = s ∧
    List.Forall₂ (fun u c => u.render s.frames s.heap s.config.verify = .ok c) units cs := by
  induction units with
  | nil => exact ⟨rfl, .nil⟩
  | cons u units ih =>
    rw [List.mapM_cons, Build.endsBind]
    refine (renderIs u).mono ?_ fun _ _ h => h
    rintro c _ ⟨rfl, first⟩
    rw [Build.endsBind]
    refine ih.mono ?_ fun _ _ h => h
    rintro cs _ ⟨rfl, rest⟩
    exact ⟨rfl, .cons first rest⟩

theorem defineIs (classes : List Class) (l : Loaded) (c : Class) : Ends (define classes l c) s (fun _ _ => True)
    fun l' s' => s' = s ∧ l.library.contains c.name = false ∧ (∀ name ∈ c.dependencies, ∃ d ∈ classes, d.name = name) ∧
      l' = ⟨⟨l.library.classes ++ [c]⟩, l.world.declare c⟩ := by
  unfold define
  rw [Build.endsBind, Build.endsGet]
  dsimp only
  split
  · exact dumpFails _ _ _ _
  · next known =>
    unfold Loaded.define Library.define
    cases there : l.library.contains c.name with
    | true => exact dumpFails _ _ _ _
    | false =>
      refine ⟨rfl, rfl, fun name inside => ?_, rfl⟩
      simpa using List.find?_eq_none.1 known name inside

theorem defineAllIs (classes cs : List Class) (l : Loaded) : Ends (cs.foldlM (define classes) l) s (fun _ _ => True)
    fun l' s' => s' = s ∧ l'.library.classes = l.library.classes ++ cs ∧ l'.world = cs.foldl World.declare l.world ∧
      ((l.library.classes.map (·.name)).Nodup → (l'.library.classes.map (·.name)).Nodup) ∧
      ∀ c ∈ cs, ∀ name ∈ c.dependencies, ∃ d ∈ classes, d.name = name := by
  induction cs generalizing l with
  | nil => exact ⟨rfl, (List.append_nil _).symm, rfl, id, List.forall_mem_nil _⟩
  | cons c cs ih =>
    rw [List.foldlM_cons, Build.endsBind]
    refine (defineIs classes l c).mono ?_ fun _ _ h => h
    rintro _ _ ⟨rfl, new, known, rfl⟩
    refine (ih _).mono ?_ fun _ _ h => h
    rintro l' _ ⟨rfl, library, world, distinct, others⟩
    refine ⟨rfl, by rw [library, List.append_assoc, List.singleton_append], world, fun before => distinct ?_,
      List.forall_mem_cons.2 ⟨known, others⟩⟩
    rw [List.map_append, List.map_singleton, List.nodup_append]
    refine ⟨before, List.nodup_singleton _, ?_⟩
    intro name there other here same
    rw [List.mem_singleton.1 here] at same
    obtain ⟨d, inside, is⟩ := List.mem_map.1 there
    have absent := List.find?_eq_none.1 (Option.isNone_iff_eq_none.1 (Option.isSome_eq_false_iff.1 new)) d inside
    simp [is, same] at absent

theorem prepareIs (l : Loaded) (u : UnitDraft) : Ends (prepare l u) s (fun _ _ => True) fun l' s' => s' = s ∧
    l' = { l with world := preparedIn l.world u } := by
  unfold prepare preparedIn
  generalize u.prepare = values
  induction values generalizing l with
  | nil => exact ⟨rfl, rfl⟩
  | cons x values ih =>
    rw [List.foldlM_cons, Build.endsBind, List.foldl_cons]
    rcases set : l.world.setStatic u.name x.1 x.2 with ⟨_ | _, w⟩
    · simp only [set]
      trivial
    · simp only [set]
      exact ih { l with world := w }

theorem prepareAllIs (units : List UnitDraft) (l : Loaded) : Ends (units.foldlM prepare l) s (fun _ _ => True)
    fun l' s' => s' = s ∧ l' = { l with world := units.foldl preparedIn l.world } := by
  induction units generalizing l with
  | nil => exact ⟨rfl, rfl⟩
  | cons u units ih =>
    rw [List.foldlM_cons, Build.endsBind]
    refine (prepareIs l u).mono ?_ fun _ _ h => h
    rintro _ _ ⟨rfl, rfl⟩
    exact ih _

theorem buildFrom (s : Session) : Ends build s (fun _ _ => True) fun l _ => ∃ classes, From s classes l := by
  unfold build
  rw [Build.endsBind]
  refine (show Ends Build.checkOpen s (fun _ _ => True) fun _ s' => s' = s from ?_).mono ?_ fun _ _ h => h
  · unfold Build.checkOpen
    rw [Build.endsBind, Build.endsGet]
    cases s.built with
    | true => trivial
    | false => rfl
  rintro _ _ rfl
  rw [Build.endsBind, Build.endsGet, Build.endsBind, Build.endsSet, Build.endsBind]
  refine (renderAllIs _).mono ?_ fun _ _ h => h
  rintro classes _ ⟨rfl, rendered⟩
  rw [Build.endsBind]
  refine (defineAllIs classes _ _).mono ?_ fun _ _ h => h
  rintro l _ ⟨rfl, library, world, distinct, closed⟩
  refine (prepareAllIs _ l).mono ?_ fun _ _ h => h
  rintro _ _ ⟨rfl, rfl⟩
  refine ⟨classes, rendered, library, distinct List.nodup_nil, fun c inside => closed c ?_,
    congrArg (fun w => List.foldl preparedIn w _) world⟩
  exact (orderPerm classes rfl).mem_iff.2 inside

/-! ### Twins -/

theorem declareTwin {cs cs' : List Class} (all : List.Forall₂ (Class.Twins host) cs cs') (w : World) :
    cs'.foldl World.declare w = cs.foldl World.declare w := by
  refine foldlSame all (fun c c' twins w => ?_) w
  unfold World.declare
  rw [twins.name, twins.statics]

variable {s' : Session} {l l' : Loaded}

theorem From.worldTwin (is : From s classes l) (is' : From s' classes' l') (heap : s'.heap = s.heap)
    (units : List.Forall₂ (fun u u' : UnitDraft => u'.name = u.name ∧ u'.prepare = u.prepare) (unitsOf s) (unitsOf s'))
    (all : List.Forall₂ (Class.Twins host) classes classes') : l'.world = l.world := by
  rw [is.world, is'.world, orderTwin all, heap, declareTwin (pairedOrder all _)]
  refine foldlSame (pairedOrder units _) (fun u u' same w => ?_) _
  unfold preparedIn
  rw [same.1, same.2]

theorem classTwin {cs cs' : List Class} (all : List.Forall₂ (Class.Twins host) cs cs') (cls : String) :
    Option.Rel (Class.Twins host) (cs.find? (·.name == cls)) (cs'.find? (·.name == cls)) := by
  induction all with
  | nil => exact .none
  | cons first _ ih =>
    rw [List.find?_cons, List.find?_cons, first.name]
    split
    · exact .some first
    · exact ih

theorem From.beside (is : From s classes l) (is' : From s' classes' l') (all : List.Forall₂ (Class.Twins host) classes classes') :
    Library.Beside host l.library l'.library := by
  have found (cls : String) : Option.Rel (Class.Twins host) (l.library.class? cls) (l'.library.class? cls) := by
    unfold Library.class?
    rw [is.library, is'.library, orderTwin all]
    exact classTwin (pairedOrder all _) cls
  constructor
  · intro cls other
    have twins := found cls
    cases here : l.library.class? cls with
    | none =>
      rw [here] at twins
      generalize l'.library.class? cls = c' at twins
      cases twins
      rfl
    | some c =>
      have name : c.name = cls := Machine.classNameIs here
      rw [here] at twins
      generalize l'.library.class? cls = c' at twins
      cases twins with
      | some twins => rw [twins.other (name ▸ other)]
  · have twins := found host
    generalize l.library.class? host = c, l'.library.class? host = c' at twins
    cases twins <;> rfl

end Load

end QueryMachine
