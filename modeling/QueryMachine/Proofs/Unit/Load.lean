import QueryMachine.Proofs.Session
import QueryMachine.Proofs.Unit.Order
import QueryMachine.Proofs.Verifier.Soundness
import Mathlib.Data.List.Forall2

/-! Loading. Where every method can be rendered and no unit is missing, rendering a method is all that can fail. -/
namespace QueryMachine

/-! ### Rendering -/

theorem MethodDraft.renderBound {labels : List (Option Nat)} {failure : Nat → RenderFailure} {made method : Method}
    (is : (match labels.findIdx? (·.isNone) with
      | some l => .error (failure l)
      | none => .ok made) = Except.ok method) : labels.findIdx? (·.isNone) = none ∧ method = made := by
  split at is
  · contradiction
  · next bound =>
    cases is
    exact ⟨bound, rfl⟩

theorem MethodDraft.renderFrom {m : MethodDraft} {fs : Frames} {h : Heap} {verifying : Bool} {method : Method}
    (is : m.render fs h verifying = .ok method) : ∃ body e n, m.body = some body ∧ m.emission body fs .empty = (.ok (), e) ∧
      (verifying = true → verify e.ops e.labels.toList e.handlers e.maxLocals m.returns.width = .ok n) ∧
      e.labels.toList.findIdx? (·.isNone) = none ∧
      method = ⟨m.ref, e.ops, (e.labels.toList.map (·.getD 0)).toArray, e.handlers, e.maxLocals, n⟩ := by
  unfold render at is
  cases known : m.body with
  | none =>
    rw [known] at is
    cases is
  | some body =>
    rw [known] at is
    rcases answer : m.emission body fs .empty with ⟨err | ⟨⟩, e⟩ <;> simp only [answer] at is <;> split at is
    · cases is
    · cases is
    · cases is
    cases verifying with
    | true =>
      rw [if_pos rfl] at is
      split at is
      · next n accepted =>
        obtain ⟨bound, same⟩ := renderBound is
        exact ⟨body, e, n, rfl, answer, fun _ => accepted, bound, same⟩
      · cases is
    | false =>
      obtain ⟨bound, same⟩ := renderBound is
      exact ⟨body, e, 0, rfl, answer, nofun, bound, same⟩

theorem MethodDraft.renderRef {m : MethodDraft} {fs : Frames} {h : Heap} {verifying : Bool} {method : Method}
    (is : m.render fs h verifying = .ok method) : method.ref = m.ref := by
  obtain ⟨_, _, _, _, _, _, _, rfl⟩ := renderFrom is
  rfl

theorem MethodDraft.renderAccepted {m : MethodDraft} {fs : Frames} {h : Heap} {method : Method}
    (is : m.render fs h true = .ok method) :
    verify method.ops (method.labels.toList.map some) method.handlers method.maxLocals m.returns.width =
      .ok method.maxStack := by
  obtain ⟨_, e, n, _, _, verified, allBound, rfl⟩ := renderFrom is
  have bound : ∀ x ∈ e.labels.toList, (fun p => some (p.getD 0)) x = x := by
    intro x inside
    have isSome := List.findIdx?_eq_none_iff.1 allBound x inside
    cases x with
    | none => contradiction
    | some p => rfl
  have labels : (e.labels.toList.map (·.getD 0)).map some = e.labels.toList := by
    rw [List.map_map]
    exact (List.map_congr_left bound).trans (List.map_id _)
  dsimp only
  rw [labels]
  exact verified rfl

/-- The class of a unit, method by method. -/
structure UnitDraft.Renders (s : Session) (u : UnitDraft) (c : Class) : Prop where
  name : c.name = u.name
  statics : c.statics = u.statics.map fun f => (f.1, f.2.rep)
  methods : List.Forall₂ (fun m method => m.render s.frames s.heap s.config.verify = .ok method) u.methods c.methods

namespace Load

open Build (Ends)

variable {E : Error → Prop} {s : Session}

theorem methodsRendered {ms : List MethodDraft} {f : MethodDraft → Except RenderFailure Method}
    (each : ∀ m ∈ ms, Answers (f m) (fun _ => True) fun r => E r.error) :
    Answers (ms.mapM f) (List.Forall₂ (fun m method => f m = .ok method) ms) fun r => E r.error := by
  induction ms with
  | nil => exact .nil
  | cons m ms ih =>
    rw [List.forall_mem_cons] at each
    rw [List.mapM_cons, answersBind]
    have first := each.1
    cases is : f m with
    | error r =>
      rw [is] at first
      exact first
    | ok method =>
      rw [answersOk, answersBind]
      refine (ih each.2).mono ?_ fun _ h => h
      intro methods all
      exact .cons is all

theorem renderAnswers {u : UnitDraft}
    (each : ∀ m ∈ u.methods, Answers (m.render s.frames s.heap s.config.verify) (fun _ => True) fun r => E r.error) :
    Answers (u.render s.frames s.heap s.config.verify) (u.Renders s) fun r => E r.error := by
  unfold UnitDraft.render
  rw [answersBind]
  refine (methodsRendered each).mono ?_ fun _ h => h
  intro methods all
  exact ⟨rfl, rfl, all⟩

theorem renderEnds {u : UnitDraft} (refusals : ∀ err, E err → Refusal err)
    (each : ∀ m ∈ u.methods, Answers (m.render s.frames s.heap s.config.verify) (fun _ => True) fun r => E r.error) :
    Ends (render u) s (fun err _ => E err) fun c s' => s' = s ∧ u.Renders s c := by
  have made := renderAnswers each
  unfold render
  rw [Build.endsBind, Build.endsGet]
  cases is : u.render s.frames s.heap s.config.verify with
  | ok c =>
    rw [is] at made
    exact ⟨rfl, made⟩
  | error r =>
    rw [is] at made
    have external : r.error.cause.isInternal = false := refusals _ made
    simp only [external, Bool.false_eq_true, if_false, Build.endsThrow]
    exact made

theorem renderAll {units : List UnitDraft} (refusals : ∀ err, E err → Refusal err)
    (each : ∀ u ∈ units, ∀ m ∈ u.methods,
      Answers (m.render s.frames s.heap s.config.verify) (fun _ => True) fun r => E r.error) :
    Ends (units.mapM render) s (fun err _ => E err) fun cs s' => s' = s ∧ List.Forall₂ (UnitDraft.Renders s) units cs := by
  induction units with
  | nil => exact ⟨rfl, .nil⟩
  | cons u units ih =>
    rw [List.forall_mem_cons] at each
    rw [List.mapM_cons, Build.endsBind]
    refine (renderEnds refusals each.1).mono ?_ fun _ _ h => h
    intro c s' ⟨same, first⟩
    subst same
    rw [Build.endsBind]
    refine (ih each.2).mono ?_ fun _ _ h => h
    intro cs s' ⟨same, rest⟩
    exact ⟨same, .cons first rest⟩

/-! ### Defining -/

theorem defineAll {classes cs : List Class} {l : Loaded}
    (found : ∀ c ∈ cs, ∀ name ∈ c.dependencies, ∃ d ∈ classes, d.name = name)
    (distinct : ((l.library.classes ++ cs).map (·.name)).Nodup) :
    Ends (cs.foldlM (define classes) l) s (fun _ _ => False) fun l' s' => s' = s ∧
      l'.library.classes = l.library.classes ++ cs ∧ l'.world = cs.foldl World.declare l.world := by
  induction cs generalizing l with
  | nil => exact ⟨rfl, by simp, rfl⟩
  | cons c cs ih =>
    rw [List.forall_mem_cons] at found
    have none : c.dependencies.find? (fun name => !classes.any (·.name == name)) = none := by
      rw [List.find?_eq_none]
      intro name inside missing
      obtain ⟨d, member, is⟩ := found.1 name inside
      have there : classes.any (·.name == name) = true := List.any_eq_true.2 ⟨d, member, by simp [is]⟩
      simp [there] at missing
    have new : l.library.contains c.name = false := by
      unfold Library.contains Library.class?
      rw [Option.isSome_eq_false_iff, Option.isNone_iff_eq_none, List.find?_eq_none]
      intro d inside same
      rw [List.map_append, List.nodup_append] at distinct
      exact distinct.2.2 d.name (List.mem_map_of_mem inside) c.name (by simp) (by simpa using same)
    have step : Ends (define classes l c) s (fun _ _ => False) fun l' s' => s' = s ∧
        l' = ⟨⟨l.library.classes ++ [c]⟩, l.world.declare c⟩ := by
      unfold define
      rw [Build.endsBind, Build.endsGet]
      simp only [none]
      unfold Loaded.define Library.define
      rw [new]
      exact ⟨rfl, rfl⟩
    rw [List.foldlM_cons, Build.endsBind]
    refine step.mono ?_ fun _ _ h => h
    intro l' s' ⟨same, is⟩
    subst same is
    refine (ih found.2 (by simpa using distinct)).mono ?_ fun _ _ h => h
    intro l' s' ⟨same, classes, world⟩
    exact ⟨same, by simpa using classes, world⟩

end Load

/-! ### Preparing -/

namespace World

variable {w : World} {cls name : String}

structure Alike (w w' : World) : Prop where
  heap : w'.heap = w.heap
  linker : w'.linker = w.linker
  sites : w'.sites = w.sites

theorem lookupSome {β : Type} {k : String × String} {l : List ((String × String) × β)} :
    (l.lookup k).isSome ↔ k ∈ l.map (·.1) := by
  rw [Option.isSome_iff_exists]
  constructor
  · rintro ⟨v, found⟩
    obtain ⟨l₁, l₂, same, _⟩ := List.lookup_eq_some_iff.1 found
    simp [same]
  · intro inside
    cases found : l.lookup k with
    | some v => exact ⟨v, rfl⟩
    | none =>
      obtain ⟨x, member, is⟩ := List.mem_map.1 inside
      have differs := List.lookup_eq_none_iff.1 found x member
      simp [is] at differs

theorem declaredAll {cs : List Class} {c : Class} {field : String × Rep} (inside : c ∈ cs) (static : field ∈ c.statics)
    (w : World) : ((cs.foldl declare w).static? c.name field.1).isSome := by
  have kept : ∀ (cs : List Class) (w : World) (k : String × String), k ∈ w.statics.map (·.1) →
      k ∈ (cs.foldl declare w).statics.map (·.1) := by
    intro cs
    induction cs with
    | nil => exact fun _ _ h => h
    | cons d ds ih =>
      intro w k there
      exact ih (w.declare d) k (by simp only [declare, List.map_append]; exact List.mem_append_left _ there)
  unfold static?
  rw [lookupSome]
  induction cs generalizing w with
  | nil => contradiction
  | cons d ds ih =>
    obtain rfl | later := List.mem_cons.1 inside
    · refine kept ds (w.declare c) _ ?_
      simp only [declare, List.map_append, List.map_map, List.mem_append, List.mem_map, List.mem_reverse]
      exact .inr ⟨field, static, rfl⟩
    · exact ih later (w.declare d)

theorem declareAlike (cs : List Class) (w : World) : w.Alike (cs.foldl declare w) := by
  induction cs generalizing w with
  | nil => exact ⟨rfl, rfl, rfl⟩
  | cons c cs ih =>
    obtain ⟨heap, linker, sites⟩ := ih (w.declare c)
    exact ⟨heap, linker, sites⟩

theorem lookupReplaced {β : Type} {k other : String × String} {v : β} {l : List ((String × String) × β)} :
    (l.map fun x => (x.1, if x.1 == k then v else x.2)).lookup other =
      if other = k then (l.lookup other).map fun _ => v else l.lookup other := by
  induction l with
  | nil => simp
  | cons x l ih =>
    rw [List.map_cons, List.lookup_cons, List.lookup_cons]
    by_cases here : other = x.1
    · by_cases same : other = k
      · simp [← here, same]
      · simp [← here, same]
    · have differs : (other == x.1) = false := by simpa using here
      simp only [differs, ih]

theorem setStaticIs (has : (w.static? cls name).isSome) (v : Value) : ∃ w', w.setStatic cls name v = (true, w') ∧
    w.Alike w' ∧ w'.static? cls name = some v ∧
    ∀ other : String × String, other ≠ (cls, name) → w'.static? other.1 other.2 = w.static? other.1 other.2 := by
  unfold setStatic
  rw [if_pos has]
  refine ⟨_, rfl, ⟨rfl, rfl, rfl⟩, ?_, ?_⟩
  · obtain ⟨old, found⟩ := Option.isSome_iff_exists.1 has
    have found : w.statics.lookup (cls, name) = some old := found
    change (w.statics.map fun x => (x.1, if x.1 == (cls, name) then v else x.2)).lookup (cls, name) = some v
    rw [lookupReplaced, if_pos rfl, found]
    rfl
  · intro other differs
    change (w.statics.map fun x => (x.1, if x.1 == (cls, name) then v else x.2)).lookup other = w.statics.lookup other
    rw [lookupReplaced, if_neg differs]

/-- Values have been given to static fields of a class. -/
structure Given (cls : String) (values : List (String × Value)) (w w' : World) : Prop where
  alike : w.Alike w'
  set : ∀ x ∈ values, w'.static? cls x.1 = some x.2
  kept : ∀ k : String × String, (w.static? k.1 k.2).isSome → (w'.static? k.1 k.2).isSome
  others : ∀ k : String × String, (∀ x ∈ values, k ≠ (cls, x.1)) → w'.static? k.1 k.2 = w.static? k.1 k.2

end World

namespace Load

open Build (Ends)

variable {s : Session} {l : Loaded}

theorem prepareEnds {u : UnitDraft} (distinct : (u.prepare.map (·.1)).Nodup)
    (slots : ∀ x ∈ u.prepare, (l.world.static? u.name x.1).isSome) :
    Ends (prepare l u) s (fun _ _ => False) fun l' s' => s' = s ∧ l'.library = l.library ∧
      World.Given u.name u.prepare l.world l'.world := by
  unfold prepare
  generalize u.prepare = values at distinct slots
  induction values generalizing l with
  | nil => exact ⟨rfl, rfl, ⟨rfl, rfl, rfl⟩, by simp, fun _ h => h, fun _ _ => rfl⟩
  | cons x values ih =>
    rw [List.map_cons, List.nodup_cons] at distinct
    rw [List.forall_mem_cons] at slots
    obtain ⟨w', set, alike, here, others⟩ := World.setStaticIs slots.1 x.2
    have kept : ∀ k : String × String, (l.world.static? k.1 k.2).isSome → (w'.static? k.1 k.2).isSome := by
      intro k there
      by_cases same : k = (u.name, x.1)
      · rw [same, here]
        rfl
      · rw [others k same]
        exact there
    rw [List.foldlM_cons, Build.endsBind]
    simp only [set, Build.endsPure]
    refine (ih (l := { l with world := w' }) distinct.2 fun y inside => kept (u.name, y.1) (slots.2 y inside)).mono ?_ fun _ _ h => h
    rintro l' s' ⟨same, library, given⟩
    refine ⟨same, library, ?_, ?_, fun k there => given.kept k (kept k there), ?_⟩
    · exact ⟨given.alike.heap.trans alike.heap, given.alike.linker.trans alike.linker,
        given.alike.sites.trans alike.sites⟩
    · rw [List.forall_mem_cons]
      refine ⟨?_, given.set⟩
      rw [given.others (u.name, x.1), here]
      intro y inside same
      exact distinct.1 (by rw [(Prod.mk.inj same).2]; exact List.mem_map_of_mem inside)
    · intro k differs
      rw [List.forall_mem_cons] at differs
      rw [given.others k differs.2, others k differs.1]

theorem prepareAll {units : List UnitDraft} (distinct : (units.map (·.name)).Nodup)
    (values : ∀ u ∈ units, (u.prepare.map (·.1)).Nodup)
    (slots : ∀ u ∈ units, ∀ x ∈ u.prepare, (l.world.static? u.name x.1).isSome) :
    Ends (units.foldlM prepare l) s (fun _ _ => False) fun l' s' => s' = s ∧ l'.library = l.library ∧
      l.world.Alike l'.world ∧ (∀ u ∈ units, ∀ x ∈ u.prepare, l'.world.static? u.name x.1 = some x.2) ∧
      ∀ k : String × String, (∀ u ∈ units, k.1 ≠ u.name) → l'.world.static? k.1 k.2 = l.world.static? k.1 k.2 := by
  induction units generalizing l with
  | nil => exact ⟨rfl, rfl, ⟨rfl, rfl, rfl⟩, nofun, fun _ _ => rfl⟩
  | cons u units ih =>
    rw [List.map_cons, List.nodup_cons] at distinct
    rw [List.forall_mem_cons] at values slots
    rw [List.foldlM_cons, Build.endsBind]
    refine (prepareEnds values.1 slots.1).mono ?_ fun _ _ h => h
    intro l₁ s₁ ⟨same, library, given⟩
    subst same
    refine (ih (l := l₁) distinct.2 values.2 fun v inside x member => given.kept (v.name, x.1) (slots.2 v inside x member)).mono ?_
      fun _ _ h => h
    intro l₂ s₂ ⟨same, library', alike, set, others⟩
    refine ⟨same, library'.trans library, ?_, ?_, ?_⟩
    · exact ⟨alike.heap.trans given.alike.heap, alike.linker.trans given.alike.linker,
        alike.sites.trans given.alike.sites⟩
    · rw [List.forall_mem_cons]
      refine ⟨?_, set⟩
      intro x inside
      refine (others (u.name, x.1) ?_).trans (given.set x inside)
      intro v member same
      exact distinct.1 (by rw [show u.name = v.name from same]; exact List.mem_map_of_mem member)
    · intro k differs
      rw [List.forall_mem_cons] at differs
      rw [others k differs.2]
      refine given.others k ?_
      intro x _ same
      exact differs.1 (congrArg Prod.fst same)

/-! ### Building -/

def unitsOf (s : Session) : List UnitDraft := (s.units ++ (constantsUnit? s.constants).toList).filter (!·.isEmpty)

def Crowded (s : Session) : Prop := ∃ u ∈ unitsOf s, ¬ u.Fits s.frames

structure Complete (E : Error → Prop) (s : Session) : Prop where
  unbuilt : s.built = false
  ready : ∀ u ∈ unitsOf s, ∀ m ∈ u.methods,
    m.Ready E (fun cls => ∃ d ∈ unitsOf s, d.name = cls) s.frames fun _ _ _ => True
  distinct : ((unitsOf s).map (·.name)).Nodup
  values : ∀ u ∈ unitsOf s, (u.prepare.map (·.1)).Nodup
  slots : ∀ u ∈ unitsOf s, ∀ x ∈ u.prepare, x.1 ∈ u.statics.map (·.1)

/-- What has been loaded: a class for each unit, in some order, and the values of the static fields. -/
structure Holds (s : Session) (l : Loaded) : Prop where
  classes : ∃ cs, List.Forall₂ (UnitDraft.Renders s) (unitsOf s) cs ∧ l.library.classes.Perm cs
  world : (World.empty s.heap).Alike l.world
  statics : ∀ u ∈ unitsOf s, ∀ x ∈ u.prepare, l.world.static? u.name x.1 = some x.2

theorem findUnique {α : Type} {f : α → String} {l : List α} {x : α} (distinct : (l.map f).Nodup) (inside : x ∈ l) :
    l.find? (f · == f x) = some x := by
  induction l with
  | nil => contradiction
  | cons y l ih =>
    rw [List.map_cons, List.nodup_cons] at distinct
    rw [List.find?_cons]
    obtain rfl | later := List.mem_cons.1 inside
    · simp
    · have differs : (f y == f x) = false := by
        rw [beq_eq_false_iff_ne]
        intro same
        exact distinct.1 (same ▸ List.mem_map_of_mem later)
      rw [differs]
      exact ih distinct.2 later

theorem pairedLeft {α β : Type} {R : α → β → Prop} {xs : List α} {ys : List β} (all : List.Forall₂ R xs ys) {y : β}
    (inside : y ∈ ys) : ∃ x ∈ xs, R x y := by
  induction all with
  | nil => contradiction
  | cons first _ ih =>
    obtain rfl | later := List.mem_cons.1 inside
    · exact ⟨_, List.mem_cons_self, first⟩
    · obtain ⟨x, member, related⟩ := ih later
      exact ⟨x, List.mem_cons_of_mem _ member, related⟩

theorem pairedRight {α β : Type} {R : α → β → Prop} {xs : List α} {ys : List β} (all : List.Forall₂ R xs ys) {x : α}
    (inside : x ∈ xs) : ∃ y ∈ ys, R x y := pairedLeft all.flip inside

theorem renderedNames {units : List UnitDraft} {cs : List Class} (all : List.Forall₂ (UnitDraft.Renders s) units cs) :
    cs.map (·.name) = units.map (·.name) := by
  induction all with
  | nil => rfl
  | cons first _ ih => rw [List.map_cons, List.map_cons, ih, first.name]

theorem memberKnown {knows : String → Prop} {E : Error → Prop} {u : UnitDraft} {c : Class} (renders : u.Renders s c)
    (ready : ∀ m ∈ u.methods, m.Ready E knows s.frames fun _ _ _ => True) : ∀ name ∈ c.dependencies, knows name := by
  intro name inside
  unfold Class.dependencies at inside
  rw [List.mem_filter, List.mem_eraseDups, List.mem_flatMap] at inside
  obtain ⟨⟨method, member, inside⟩, _⟩ := inside
  obtain ⟨o, there, is⟩ := List.mem_filterMap.1 inside
  obtain ⟨m, draft, rendered⟩ := pairedLeft renders.methods member
  have answer := ready m draft s.frames (.refl _) s.heap s.config.verify
  rw [rendered] at answer
  obtain ⟨_, _, _, _, members⟩ := answer
  exact members o (by simpa using there) name is

theorem buildEnds {E : Error → Prop} (refusals : ∀ err, E err → Refusal err) (complete : Complete E s) :
    Ends build s (fun err _ => E err ∨ err = .of .overflow ∧ Crowded s) fun l s' => s'.config = s.config ∧ Holds s l := by
  unfold build
  rw [Build.endsBind, Build.endsOpen complete.unbuilt, Build.endsBind, Build.endsGet, Build.endsBind, Build.endsSet]
  let s₁ : Session := { s with built := true, units := [] }
  change Ends _ s₁ _ _
  have rendered : ∀ u ∈ unitsOf s, ∀ m ∈ u.methods,
      Answers (m.render s₁.frames s₁.heap s₁.config.verify) (fun _ => True) fun r =>
        E r.error ∨ r.error = .of .overflow ∧ Crowded s := by
    intro u inside m member
    have answer := complete.ready u inside m member s.frames (.refl _) s.heap s.config.verify
    change Answers (m.render s.frames s.heap s.config.verify) _ _
    cases is : m.render s.frames s.heap s.config.verify with
    | ok method => trivial
    | error r =>
      rw [is] at answer
      exact answer.imp_right fun ⟨overflow, crowded⟩ => ⟨overflow, u, inside, fun fits => crowded (fits m member)⟩
  have refused : ∀ err, E err ∨ err = .of .overflow ∧ Crowded s → Refusal err := by
    rintro err (failed | ⟨rfl, _⟩)
    · exact refusals err failed
    · rfl
  have loaded := renderAll refused rendered
  rw [Build.endsBind]
  refine loaded.mono ?_ fun _ _ h => h
  intro classes s₂ ⟨same, all⟩
  subst same
  have all : List.Forall₂ (UnitDraft.Renders s) (unitsOf s) classes :=
    all.imp fun _ _ renders => ⟨renders.name, renders.statics, renders.methods⟩
  have names := renderedNames all
  have perm := orderPerm classes rfl
  have permUnits := orderPerm classes all.length_eq
  have found : ∀ c ∈ (order classes).filterMap (classes[·]?), ∀ name ∈ c.dependencies, ∃ d ∈ classes, d.name = name := by
    intro c inside name used
    obtain ⟨u, member, renders⟩ := pairedLeft all (perm.mem_iff.1 inside)
    obtain ⟨d, there, is⟩ := memberKnown renders (complete.ready u member) name used
    obtain ⟨e, loaded, other⟩ := pairedRight all there
    exact ⟨e, loaded, other.name.trans is⟩
  rw [Build.endsBind]
  refine (defineAll (l := .empty s.heap) found ?_).mono ?_ fun _ _ never => never.elim
  · have distinct := complete.distinct
    rw [← names] at distinct
    exact ((perm.map (·.name)).nodup_iff).2 distinct
  intro l s₂ ⟨same, library, world⟩
  subst same
  refine (prepareAll (l := l) ((permUnits.map (·.name)).nodup_iff.2 complete.distinct) ?_ ?_).mono ?_ fun _ _ never => never.elim
  · exact fun u inside => complete.values u (permUnits.mem_iff.1 inside)
  · intro u inside x member
    obtain ⟨c, there, renders⟩ := pairedRight all (permUnits.mem_iff.1 inside)
    obtain ⟨field, static, is⟩ := List.mem_map.1 (complete.slots u (permUnits.mem_iff.1 inside) x member)
    have declared : (field.1, field.2.rep) ∈ c.statics := by
      rw [renders.statics]
      exact List.mem_map_of_mem (f := fun f : String × Ty => (f.1, f.2.rep)) static
    have slot := World.declaredAll (perm.mem_iff.2 there) declared (Loaded.empty s.heap).world
    rw [world, ← is, ← renders.name]
    exact slot
  · intro l' s₂ ⟨same, library', alike, set, _⟩
    subst same
    refine ⟨rfl, ⟨classes, all, ?_⟩, ?_, fun u inside => set u (permUnits.mem_iff.2 inside)⟩
    · rw [library', library]
      exact perm
    · have before : (World.empty s.heap).Alike l.world := by
        rw [world]
        exact World.declareAlike _ _
      exact ⟨alike.heap.trans before.heap, alike.linker.trans before.linker, alike.sites.trans before.sites⟩

theorem Holds.classFound {l : Loaded} (holds : Holds s l) (distinct : ((unitsOf s).map (·.name)).Nodup) {u : UnitDraft}
    (inside : u ∈ unitsOf s) : ∃ c, l.library.class? u.name = some c ∧ u.Renders s c := by
  obtain ⟨cs, all, perm⟩ := holds.classes
  obtain ⟨c, member, renders⟩ := pairedRight all inside
  have apart : (l.library.classes.map (·.name)).Nodup := by
    rw [(perm.map _).nodup_iff, renderedNames all]
    exact distinct
  have found := findUnique apart (perm.mem_iff.2 member)
  rw [renders.name] at found
  exact ⟨c, found, renders⟩

theorem methodFound {u : UnitDraft} {c : Class} (renders : u.Renders s c) (distinct : (u.methods.map (·.ref.name)).Nodup)
    {m : MethodDraft} (inside : m ∈ u.methods) : ∃ method, c.method? m.ref.name = some method ∧
      m.render s.frames s.heap s.config.verify = .ok method := by
  obtain ⟨method, member, rendered⟩ := pairedRight renders.methods inside
  have names : c.methods.map (·.name) = u.methods.map (·.ref.name) := by
    have all := renders.methods
    generalize c.methods = methods, u.methods = drafts at all
    induction all with
    | nil => rfl
    | cons first _ ih => rw [List.map_cons, List.map_cons, ih, Method.name, MethodDraft.renderRef first]
  refine ⟨method, ?_, rendered⟩
  unfold Class.method?
  have found := findUnique (f := Method.name) (l := c.methods.reverse) (x := method)
    (by rw [List.map_reverse, (List.reverse_perm _).nodup_iff, names]; exact distinct) (List.mem_reverse.2 member)
  rw [show method.name = m.ref.name from congrArg MethodRef.name (MethodDraft.renderRef rendered)] at found
  exact found

end Load

end QueryMachine
