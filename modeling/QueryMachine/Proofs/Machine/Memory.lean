import QueryMachine.Machine.Dispatch
import QueryMachine.Proofs.Effects

/-! What call sites and the linker remember. A run is watched by the sorts of objects it dispatches on: it keeps what is
remembered right, adds the adapters of these sorts, and goes the same way from a world that remembers something else. -/
namespace QueryMachine

namespace World

def tags (w : World) : List Tag := w.linker.adapters.map (·.1)

structure Beside (w v : World) : Prop where
  heap : w.heap = v.heap
  statics : w.statics = v.statics

def forgetful (w : World) : World := { w with linker := .empty, sites := [] }

def meet (w : World) (site : Nat) (tag : Tag) (a : Adapter) : World :=
  { w with sites := (site, tag, a) :: w.sites.filter (·.1 != site) }

end World

namespace Machine

def Loads (lib : Library) (tag : Tag) : Prop := ∃ a, adapterFor lib tag = .ok a

def loaded (lib : Library) : Tag → Bool
  | .struct cls => lib.contains cls
  | _ => true

theorem loadsIff (lib : Library) (tag : Tag) : Loads lib tag ↔ loaded lib tag = true := by
  cases tag with
  | struct cls =>
    by_cases known : lib.contains cls <;> simp [Loads, adapterFor, loaded, known]
  | _ => exact iff_of_true ⟨_, rfl⟩ rfl

/-- Each adapter that is remembered is the one of its sort, and each was counted when it was made. -/
structure Coherent (lib : Library) (w : World) : Prop where
  linker : ∀ e ∈ w.linker.adapters, adapterFor lib e.1 = .ok e.2
  distinct : w.tags.Nodup
  counted : w.linker.generated = w.tags.length
  sites : ∀ e ∈ w.sites, adapterFor lib e.2.1 = .ok e.2.2 ∧ e.2.1 ∈ w.tags

def onward {α : Type} (sees : α → World → List Tag) : Except Stop α × World → List Tag
  | (.ok v, w) => sees v w
  | (.error _, _) => []

/-! ### Runs that go the same way whatever is remembered -/

def Watched {α : Type} (lib : Library) (r : Run α) (log : World → List Tag) : Prop :=
  ∀ w, Coherent lib w → Coherent lib (r w).2 ∧
    (∀ t, t ∈ (r w).2.tags ↔ t ∈ w.tags ∨ t ∈ log w ∧ Loads lib t) ∧
    ∀ v, Coherent lib v → w.Beside v → (r w).1 = (r v).1 ∧ (r w).2.Beside (r v).2

abbrev Silent {α : Type} (lib : Library) (r : Run α) : Prop := Watched lib r fun _ => []

section Rules

variable {lib : Library} {α β : Type} {r : Run α} {f : α → Run β} {log log' : World → List Tag}
  {logs : α → World → List Tag}

theorem Watched.congr (watched : Watched lib r log) (same : ∀ w, log w = log' w) : Watched lib r log' := by
  intro w coherent
  obtain ⟨after, tags, alike⟩ := watched w coherent
  exact ⟨after, same w ▸ tags, alike⟩

theorem silentOf (answer : Heap → List ((String × String) × Value) → Except Stop α × Heap × List ((String × String) × Value))
    (is : ∀ w, r w = ((answer w.heap w.statics).1,
      { w with heap := (answer w.heap w.statics).2.1, statics := (answer w.heap w.statics).2.2 })) : Silent lib r := by
  intro w coherent
  rw [is]
  refine ⟨⟨coherent.linker, coherent.distinct, coherent.counted, coherent.sites⟩, ?_, ?_⟩
  · simp [World.tags]
  · rintro v - ⟨heap, statics⟩
    rw [is, heap, statics]
    exact ⟨rfl, rfl, rfl⟩

theorem silentPure (x : α) : Silent lib (pure x : Run α) := silentOf (fun h s => (.ok x, h, s)) fun _ => rfl

theorem silentThrow (e : Stop) : Silent lib (throw e : Run α) := silentOf (fun h s => (.error e, h, s)) fun _ => rfl

theorem silentFault (f : Fault) : Silent lib (Run.fault f : Run α) := silentThrow (.fault f)

theorem silentLift (e : Except Fault α) : Silent lib (Run.lift e) := by
  cases e with
  | ok x => exact silentPure x
  | error f => exact silentFault f

theorem silentOrFault (f : Fault) (o : Option α) : Silent lib (Run.orFault f o) := by
  cases o with
  | some x => exact silentPure x
  | none => exact silentFault f

theorem silentSetHeap (h : Heap) : Silent lib (Run.setHeap h) := silentOf (fun _ s => (.ok (), h, s)) fun _ => rfl

theorem silentAlloc (make : Heap → Value × Heap) : Silent lib (Run.alloc make) :=
  silentOf (fun h s => (.ok (make h).1, (make h).2, s)) fun _ => rfl

theorem Watched.followed {whole : Run β} (g : Except Stop α → Run β) (l : Except Stop α → World → List Tag)
    (first : Watched lib r log) (rest : ∀ x, Watched lib (g x) (l x)) (is : ∀ w, whole w = g (r w).1 (r w).2)
    (seen : ∀ w, log' w = log w ++ l (r w).1 (r w).2) : Watched lib whole log' := by
  intro w coherent
  obtain ⟨after, tags, alike⟩ := first w coherent
  obtain ⟨finally', tags', alike'⟩ := rest (r w).1 (r w).2 after
  rw [is, seen]
  refine ⟨finally', fun t => ?_, fun v other beside => ?_⟩
  · rw [tags', tags, or_assoc, ← or_and_right, ← List.mem_append]
  · obtain ⟨same, beside'⟩ := alike v other beside
    rw [is, ← same]
    exact alike' (r v).2 (first v other).1 beside'

theorem Watched.bind (first : Watched lib r log) (rest : ∀ x, Watched lib (f x) (logs x)) :
    Watched lib (r >>= f) fun w => log w ++ onward logs (r w) := by
  refine first.followed (fun | .ok x => f x | .error e => throw e) (fun | .ok x => logs x | .error _ => fun _ => []) ?_ ?_ ?_
  · rintro (e | x)
    · exact silentThrow e
    · exact rest x
  · intro w
    rcases answer : r w with ⟨e | x, w'⟩
    · exact Run.bindError answer
    · exact Run.bindOk answer
  · intro w
    rcases r w with ⟨e | x, w'⟩ <;> rfl

theorem watchedAtHeap {f : Heap → Run β} {logs : Heap → World → List Tag} (rest : ∀ h, Watched lib (f h) (logs h)) :
    Watched lib (Run.heap >>= f) fun w => logs w.heap w := by
  intro w coherent
  obtain ⟨after, tags, alike⟩ := rest w.heap w coherent
  refine ⟨after, tags, fun v other beside => ?_⟩
  have same : (Run.heap >>= f) v = f w.heap v := by rw [beside.heap]; rfl
  rw [same]
  exact alike v other beside

theorem watchedHeap {f : Heap → Run β} (rest : ∀ h, Watched lib (f h) log) : Watched lib (Run.heap >>= f) log :=
  watchedAtHeap rest

theorem silentHeap {f : Heap → Run β} (rest : ∀ h, Silent lib (f h)) : Silent lib (Run.heap >>= f) := watchedHeap rest

theorem Watched.thenSilent (first : Watched lib r log) (rest : ∀ x, Silent lib (f x)) : Watched lib (r >>= f) log :=
  (first.bind rest).congr fun w => by
    rcases r w with ⟨e | x, w'⟩ <;> exact List.append_nil _

theorem watchedLift {e : Except Fault α} (failed : ∀ x, e = .error x → ∀ w, log w = [])
    (rest : ∀ x, e = .ok x → Watched lib (f x) log) : Watched lib (Run.lift e >>= f) log := by
  cases e with
  | error x => exact (silentFault x).congr fun w => (failed x rfl w).symm
  | ok x => exact rest x rfl

theorem Watched.attempt (watched : Watched lib r log) : Watched lib (Run.attempt r) log := by
  refine watched.followed (fun
    | .ok x => pure (.ok x)
    | .error (.fault f) => pure (.error f)
    | .error .never => throw .never) (fun _ _ => []) ?_ ?_ fun w => (List.append_nil _).symm
  · rintro ((f | _) | x)
    · exact silentPure _
    · exact silentThrow _
    · exact silentPure _
  · intro w
    unfold Run.attempt
    rcases r w with ⟨(f | _) | x, w'⟩ <;> rfl

end Rules

/-! ### Dispatch -/

section Dispatch

variable {lib : Library} {w v : World} {tag t : Tag} {a : Adapter}

theorem Coherent.lookup (coherent : Coherent lib w) (found : w.linker.adapters.lookup tag = some a) :
    adapterFor lib tag = .ok a ∧ tag ∈ w.tags := by
  obtain ⟨before, after, is, _⟩ := List.lookup_eq_some_iff.1 found
  have member : (tag, a) ∈ w.linker.adapters := is ▸ List.mem_append_right _ List.mem_cons_self
  exact ⟨coherent.linker _ member, List.mem_map_of_mem member⟩

theorem Coherent.forgetful (lib : Library) (w : World) : Coherent lib w.forgetful :=
  ⟨nofun, .nil, rfl, nofun⟩

theorem linkOpen (lib : Library) (tag : Tag) (w : World) :
    link lib tag w = (match w.linker.adapters.lookup tag with
      | some a => (return a)
      | none => do
        let a ← Run.lift (adapterFor lib tag)
        set { w with linker := ⟨w.linker.adapters ++ [(tag, a)], w.linker.generated + 1⟩ }
        return a : Run Adapter) w := rfl

theorem linkIs (lib : Library) (tag : Tag) (w : World) :
    link lib tag w = match w.linker.adapters.lookup tag, adapterFor lib tag with
      | some a, _ => (.ok a, w)
      | none, .ok a => (.ok a, { w with linker := ⟨w.linker.adapters ++ [(tag, a)], w.linker.generated + 1⟩ })
      | none, .error f => (.error (.fault f), w) := by
  rw [linkOpen]
  cases w.linker.adapters.lookup tag with
  | some a => rfl
  | none => cases adapterFor lib tag <;> rfl

def made (lib : Library) (tag : Tag) : Except Stop Adapter :=
  match adapterFor lib tag with
  | .ok a => .ok a
  | .error f => .error (.fault f)

structure Learns (lib : Library) (tag : Tag) (w : World) (answer : Except Stop Adapter × World) : Prop where
  made : answer.1 = made lib tag
  coherent : Coherent lib answer.2
  tags : ∀ t, t ∈ answer.2.tags ↔ t ∈ w.tags ∨ t = tag ∧ Loads lib tag
  beside : w.Beside answer.2

theorem linkLearns (coherent : Coherent lib w) (tag : Tag) : Learns lib tag w (link lib tag w) := by
  rw [linkIs]
  cases found : w.linker.adapters.lookup tag with
  | some a =>
    obtain ⟨is, known⟩ := coherent.lookup found
    refine ⟨by simp [made, is], coherent, fun t => ?_, rfl, rfl⟩
    exact ⟨.inl, fun either => either.elim id fun new => new.1 ▸ known⟩
  | none =>
    cases is : adapterFor lib tag with
    | error f =>
      refine ⟨by simp [made, is], coherent, fun t => ?_, rfl, rfl⟩
      refine ⟨.inl, fun either => either.elim id fun new => ?_⟩
      obtain ⟨_, a, loads⟩ := new
      rw [is] at loads
      contradiction
    | ok a =>
      have fresh : tag ∉ w.tags := by
        intro known
        obtain ⟨e, member, rfl⟩ := List.mem_map.1 known
        simpa using List.lookup_eq_none_iff.1 found e member
      refine ⟨by simp [made, is], ⟨?_, ?_, ?_, ?_⟩, fun t => ?_, rfl, rfl⟩
      · rw [List.forall_mem_append, List.forall_mem_singleton]
        exact ⟨coherent.linker, is⟩
      · have distinct : (w.tags ++ [tag]).Nodup :=
          List.nodup_append.2 ⟨coherent.distinct, List.pairwise_singleton _ _, by
            rintro t known _ new rfl
            exact fresh (List.mem_singleton.1 new ▸ known)⟩
        simpa [World.tags] using distinct
      · simp [World.tags, coherent.counted]
      · intro e member
        obtain ⟨right, known⟩ := coherent.sites e member
        refine ⟨right, ?_⟩
        simp only [World.tags, List.map_append] at known ⊢
        exact List.mem_append_left _ known
      · simp [World.tags, Loads, is]

theorem relinkLearns (coherent : Coherent lib w) (site : Nat) (tag : Tag) :
    Learns lib tag w (adapterAt.relink lib site tag w) := by
  have learns := linkLearns coherent tag
  rcases answer : link lib tag w with ⟨e | a, w'⟩
  · have same : adapterAt.relink lib site tag w = (.error e, w') := by
      unfold adapterAt.relink
      exact Run.bindError answer
    rwa [same, ← answer]
  · have same : adapterAt.relink lib site tag w = (.ok a, w'.meet site tag a) := by
      unfold adapterAt.relink
      rw [Run.bindOk answer]
      rfl
    rw [answer] at learns
    obtain ⟨is, after, tags, beside⟩ := learns
    have right : adapterFor lib tag = .ok a := by
      unfold made at is
      split at is
      · next a' is' => cases is; exact is'
      · contradiction
    rw [same]
    refine ⟨is, ⟨after.linker, after.distinct, after.counted, ?_⟩, tags, beside.heap, beside.statics⟩
    intro e member
    rcases List.mem_cons.1 member with rfl | old
    · exact ⟨right, (tags tag).2 (.inr ⟨rfl, a, right⟩)⟩
    · exact after.sites e (List.mem_filter.1 old).1

theorem adapterAtOpen (lib : Library) (site : Nat) (target : Value) (w : World) :
    adapterAt lib site target w = (match w.heap.tag? target with
      | none => if target.isNull then Run.fault .nullPointer
        else Run.fault (.unsupported ("dynamic " ++ w.heap.className target))
      | some tag => match w.sites.lookup site with
        | some (known, a) => if known = tag then (return a) else adapterAt.relink lib site tag
        | none => adapterAt.relink lib site tag : Run Adapter) w := rfl

theorem adapterAtLearns (coherent : Coherent lib w) (site : Nat) {target : Value} (is : w.heap.tag? target = some tag) :
    Learns lib tag w (adapterAt lib site target w) := by
  rw [adapterAtOpen, is]
  cases memory : w.sites.lookup site with
  | none => exact relinkLearns coherent site tag
  | some entry =>
    obtain ⟨known, a⟩ := entry
    dsimp only
    split
    · next same =>
      subst same
      obtain ⟨before, after, split, _⟩ := List.lookup_eq_some_iff.1 memory
      have member : (site, known, a) ∈ w.sites := split ▸ List.mem_append_right _ List.mem_cons_self
      obtain ⟨right, there⟩ := coherent.sites _ member
      refine ⟨by simp [made, right]; rfl, coherent, fun t => ?_, rfl, rfl⟩
      exact ⟨.inl, fun either => either.elim id fun new => new.1 ▸ there⟩
    · exact relinkLearns coherent site tag

theorem adapterAtWatched (lib : Library) (site : Nat) (target : Value) :
    Watched lib (adapterAt lib site target) fun w => (w.heap.tag? target).toList := by
  intro w coherent
  cases is : w.heap.tag? target with
  | some tag =>
    have learns := adapterAtLearns coherent site is
    refine ⟨learns.coherent, fun t => ?_, fun v other beside => ?_⟩
    · dsimp only
      rw [learns.tags, is, Option.toList_some, List.mem_singleton]
      exact or_congr_right (and_congr_right fun same => by rw [same])
    · have learns' := adapterAtLearns other site (beside.heap ▸ is)
      refine ⟨learns.made.trans learns'.made.symm, ?_, ?_⟩
      · rw [← learns.beside.heap, ← learns'.beside.heap, beside.heap]
      · rw [← learns.beside.statics, ← learns'.beside.statics, beside.statics]
  | none =>
    have answer : ∀ v, v.heap = w.heap → adapterAt lib site target v = (.error (.fault
        (if target.isNull then .nullPointer else .unsupported ("dynamic " ++ w.heap.className target))), v) := by
      intro v same
      rw [adapterAtOpen, same, is]
      dsimp only
      split <;> rfl
    rw [answer w rfl]
    refine ⟨coherent, by simp [is], fun v other beside => ?_⟩
    rw [answer v beside.heap.symm]
    exact ⟨rfl, beside⟩

end Dispatch

end Machine

end QueryMachine
