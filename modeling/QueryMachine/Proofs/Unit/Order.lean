import Mathlib.Data.Finset.Card
import Mathlib.Data.Finset.Range
import Mathlib.Logic.Relation
import QueryMachine.Unit.Load

/-! The order of loading. A walk finishes each unit once, and after the units it uses unless these need it in turn. -/
namespace QueryMachine

open Relation

namespace LoadOrder

/-- Depth-first walks through lists of units, by the visits they are made of. -/
inductive Walks (uses : Nat → List Nat) : Walk → List Nat → Walk → Prop
  | done {w : Walk} : Walks uses w [] w
  | again {w w' : Walk} {i : Nat} {is : List Nat} : i ∈ w.seen → Walks uses w is w' → Walks uses w (i :: is) w'
  | visit {w mid w' : Walk} {i : Nat} {is : List Nat} : i ∉ w.seen →
    Walks uses { w with seen := i :: w.seen } (uses i) mid → Walks uses { mid with order := mid.order ++ [i] } is w' →
    Walks uses w (i :: is) w'

variable {uses : Nat → List Nat} {n : Nat} {w w' : Walk} {is : List Nat}

/-! ### Walks with fuel -/

theorem Walks.keeps (walks : Walks uses w is w') : w.seen ⊆ w'.seen := by
  induction walks with
  | done => exact List.Subset.refl _
  | again _ _ ih => exact ih
  | visit _ _ _ inner rest => exact fun j seen => rest (inner (List.mem_cons_of_mem _ seen))

theorem Walks.sees (walks : Walks uses w is w') : is ⊆ w'.seen := by
  induction walks with
  | done => exact List.nil_subset _
  | again here rest ih => exact List.cons_subset.2 ⟨rest.keeps here, ih⟩
  | visit _ inner rest _ ih => exact List.cons_subset.2 ⟨rest.keeps (inner.keeps List.mem_cons_self), ih⟩

def Walk.unseen (n : Nat) (w : Walk) : Finset Nat := {i ∈ Finset.range n | i ∉ w.seen}

theorem Walk.unseenFewer (keeps : w.seen ⊆ w'.seen) : w'.unseen n ⊆ w.unseen n :=
  Finset.monotone_filter_right _ fun _ _ late early => late (keeps early)

theorem Walk.unseenLess {i : Nat} (low : i < n) (unseen : i ∉ w.seen) :
    (Walk.unseen n { w with seen := i :: w.seen }).card < (w.unseen n).card := by
  refine Finset.card_lt_card (Finset.ssubset_iff_of_subset (Walk.unseenFewer (List.subset_cons_self _ _)) |>.2 ⟨i, ?_, ?_⟩)
  · simp [Walk.unseen, low, unseen]
  · simp [Walk.unseen]

theorem walksFold (low : ∀ i, ∀ j ∈ uses i, j < n) (fuel : Nat) (w : Walk) (is : List Nat) (inside : ∀ i ∈ is, i < n)
    (enough : (w.unseen n).card < fuel) : Walks uses w is (is.foldl (visit uses fuel) w) := by
  induction fuel generalizing w is with
  | zero => contradiction
  | succ fuel deeper =>
    induction is generalizing w with
    | nil => exact .done
    | cons i is ih =>
      obtain ⟨here, later⟩ := List.forall_mem_cons.1 inside
      rw [List.foldl_cons, visit]
      split
      · next seen => exact .again (by simpa using seen) (ih w later enough)
      · next new =>
        have unseen : i ∉ w.seen := by simpa using new
        have inner := deeper { w with seen := i :: w.seen } (uses i) (low i)
          (Nat.lt_of_lt_of_le (Walk.unseenLess here unseen) (Nat.le_of_lt_succ enough))
        have kept := List.Subset.trans (List.subset_cons_self i w.seen) inner.keeps
        exact .visit unseen inner (ih _ later (Nat.lt_of_le_of_lt (Finset.card_le_card (Walk.unseenFewer kept)) enough))

theorem ofWalks (low : ∀ i, ∀ j ∈ uses i, j < n) : ∃ w, Walks uses ⟨[], []⟩ (List.range n) w ∧ w.order = of n uses := by
  refine ⟨_, walksFold low (n + 1) _ _ (fun i => List.mem_range.1) (Nat.lt_succ_of_le ?_), rfl⟩
  exact (Finset.card_filter_le _ _).trans_eq (Finset.card_range n)

/-! ### What a walk finishes -/

def Walk.Finishes (n : Nat) (w w' : Walk) : Prop :=
  ∃ new, w'.order = w.order ++ new ∧ new.Nodup ∧ (∀ j ∈ new, j ∉ w.seen ∧ j < n) ∧
    ∀ j, j ∈ w'.seen ↔ j ∈ w.seen ∨ j ∈ new

theorem Walk.Finishes.refl (w : Walk) : w.Finishes n w := ⟨[], by simp, List.nodup_nil, nofun, by simp⟩

theorem Walk.Finishes.trans {w'' : Walk} (first : w.Finishes n w') (second : w'.Finishes n w'') : w.Finishes n w'' := by
  obtain ⟨new, order, distinct, fresh, seen⟩ := first
  obtain ⟨new', order', distinct', fresh', seen'⟩ := second
  refine ⟨new ++ new', by rw [order', order, List.append_assoc], ?_, ?_, ?_⟩
  · refine List.nodup_append.2 ⟨distinct, distinct', ?_⟩
    intro a old b late same
    subst same
    exact (fresh' a late).1 ((seen a).2 (.inr old))
  · intro j inside
    obtain early | late := List.mem_append.1 inside
    · exact fresh j early
    · exact ⟨fun before => (fresh' j late).1 ((seen j).2 (.inl before)), (fresh' j late).2⟩
  · intro j
    rw [seen', seen, List.mem_append, or_assoc]

theorem Walk.Finishes.visit {mid : Walk} {i : Nat} (inner : Walk.Finishes n { w with seen := i :: w.seen } mid)
    (unseen : i ∉ w.seen) (low : i < n) : w.Finishes n { mid with order := mid.order ++ [i] } := by
  obtain ⟨new, order, distinct, fresh, seen⟩ := inner
  have other : i ∉ new := fun member => (fresh i member).1 List.mem_cons_self
  refine ⟨new ++ [i], by simp [order], ?_, ?_, ?_⟩
  · exact List.nodup_append.2 ⟨distinct, by simp, fun a member b last same => other (List.mem_singleton.1 last ▸ same ▸ member)⟩
  · intro j member
    obtain used | last := List.mem_append.1 member
    · exact ⟨fun before => (fresh j used).1 (List.mem_cons_of_mem _ before), (fresh j used).2⟩
    · rw [List.mem_singleton.1 last]
      exact ⟨unseen, low⟩
  · intro j
    simp only [seen, List.mem_cons, List.mem_append, List.not_mem_nil, or_false]
    tauto

theorem Walks.finishes (low : ∀ i, ∀ j ∈ uses i, j < n) (walks : Walks uses w is w') (inside : ∀ i ∈ is, i < n) :
    w.Finishes n w' := by
  induction walks with
  | done => exact .refl _
  | again _ _ ih => exact ih (List.forall_mem_cons.1 inside).2
  | @visit w mid w' i is unseen _ _ inner rest =>
    obtain ⟨here, later⟩ := List.forall_mem_cons.1 inside
    exact ((inner (low i)).visit unseen here).trans (rest later)

theorem ofPerm (low : ∀ i, ∀ j ∈ uses i, j < n) : (of n uses).Perm (List.range n) := by
  obtain ⟨w, walks, is⟩ := ofWalks low
  obtain ⟨new, order, distinct, fresh, seen⟩ := walks.finishes low fun i => List.mem_range.1
  rw [← is, order, List.nil_append]
  refine (List.perm_ext_iff_of_nodup distinct List.nodup_range).2 fun i => ⟨?_, ?_⟩
  · intro inside
    exact List.mem_range.2 (fresh i inside).2
  · intro inside
    simpa using (seen i).1 (walks.sees inside)

/-! ### What comes first -/

def Needs (uses : Nat → List Nat) : Nat → Nat → Prop := TransGen fun i j => j ∈ uses i

def Sorted (uses : Nat → List Nat) (order : List Nat) : Prop :=
  ∀ before i after, order = before ++ i :: after → ∀ j ∈ uses i, j ∈ before ∨ Needs uses j i

theorem Sorted.concat {order : List Nat} {i : Nat} (sorted : Sorted uses order)
    (last : ∀ j ∈ uses i, j ∈ order ∨ Needs uses j i) : Sorted uses (order ++ [i]) := by
  intro before k after same j used
  cases after using List.reverseRecOn with
  | nil =>
    obtain ⟨all, ends⟩ := List.append_inj' same rfl
    cases ends
    exact all ▸ last j used
  | append_singleton after last _ =>
    rw [← List.cons_append, ← List.append_assoc] at same
    exact sorted before k after (List.append_inj' same rfl).1 j used

theorem Walk.Finishes.pending (finishes : w.Finishes n w') {k : Nat} (seen : k ∈ w'.seen) (unfinished : k ∉ w'.order) :
    k ∈ w.seen ∧ k ∉ w.order := by
  obtain ⟨new, order, _, _, all⟩ := finishes
  rw [order, List.mem_append, not_or] at unfinished
  exact ⟨((all k).1 seen).resolve_right unfinished.2, unfinished.1⟩

theorem Walks.sorted (low : ∀ i, ∀ j ∈ uses i, j < n) (walks : Walks uses w is w') (inside : ∀ i ∈ is, i < n)
    (sorted : Sorted uses w.order) (pending : ∀ k ∈ w.seen, k ∉ w.order → ∀ i ∈ is, Needs uses k i) :
    Sorted uses w'.order := by
  induction walks with
  | done => exact sorted
  | again _ _ ih =>
    exact ih (List.forall_mem_cons.1 inside).2 sorted fun k seen open_ i member =>
      pending k seen open_ i (List.mem_cons_of_mem _ member)
  | @visit w mid w' i is unseen inner rest ihInner ihRest =>
    obtain ⟨here, later⟩ := List.forall_mem_cons.1 inside
    have finished := inner.finishes low (low i)
    have through : ∀ k ∈ i :: w.seen, k ∉ w.order → ∀ j ∈ uses i, Needs uses k j := by
      intro k seen open_ j used
      obtain rfl | early := List.mem_cons.1 seen
      · exact .single used
      · exact (pending k early open_ i List.mem_cons_self).tail used
    have before : ∀ j ∈ uses i, j ∈ mid.order ∨ Needs uses j i := by
      intro j used
      by_cases done : j ∈ mid.order
      · exact .inl done
      · obtain ⟨seen, open_⟩ := finished.pending (inner.sees used) done
        obtain rfl | early := List.mem_cons.1 seen
        · exact .inr (.single used)
        · exact .inr (pending j early open_ i List.mem_cons_self)
    refine ihRest later ((ihInner (low i) sorted through).concat before) ?_
    intro k seen open_ j member
    rw [List.mem_append, List.mem_singleton, not_or] at open_
    obtain ⟨early, unfinished⟩ := finished.pending seen open_.1
    exact pending k ((List.mem_cons.1 early).resolve_left open_.2) unfinished j (List.mem_cons_of_mem _ member)

theorem ofSorted (low : ∀ i, ∀ j ∈ uses i, j < n) : Sorted uses (of n uses) := by
  obtain ⟨w, walks, is⟩ := ofWalks low
  rw [← is]
  refine walks.sorted low (fun i => List.mem_range.1) ?_ nofun
  intro before i after same
  simp at same

end LoadOrder

namespace Load

theorem usesLow (classes : List Class) (i : Nat) : ∀ j ∈ uses classes i, j < classes.length := by
  intro j inside
  unfold uses at inside
  split at inside
  · contradiction
  · rw [List.mem_mergeSort, List.mem_filterMap] at inside
    obtain ⟨name, _, found⟩ := inside
    obtain ⟨k, at_, rfl⟩ := Option.map_eq_some_iff.1 found
    have low : k < classes.length := by simpa using List.findIdx?_eq_some_iff_findIdx_eq.1 at_ |>.1
    omega

theorem rangeItems {α : Type} (xs : List α) : (List.range xs.length).filterMap (xs[·]?) = xs := by
  induction xs with
  | nil => rfl
  | cons x xs ih =>
    rw [List.length_cons, List.range_succ_eq_map, List.filterMap_cons, List.filterMap_map]
    exact congrArg (List.cons x) ih

theorem orderPerm {α : Type} (classes : List Class) {xs : List α} (length : xs.length = classes.length) :
    ((order classes).filterMap (xs[·]?)).Perm xs := by
  have perm := (LoadOrder.ofPerm (usesLow classes)).filterMap (xs[·]?)
  rw [← length, rangeItems] at perm
  rw [order, ← length]
  exact perm

end Load

def Class.UsesMember (c d : Class) : Prop := ∃ m ∈ c.methods, ∃ o ∈ m.ops.toList, o.memberClass? = some d.name

theorem Class.dependenciesIff {c : Class} {name : String} : name ∈ c.dependencies ↔
    (∃ m ∈ c.methods, ∃ o ∈ m.ops.toList, o.memberClass? = some name) ∧ name ≠ c.name := by
  unfold Class.dependencies
  simp only [List.mem_filter, List.mem_eraseDups, List.mem_flatMap, List.mem_filterMap, bne_iff_ne]

namespace Load

open LoadOrder (Walks)

/-- The class at one position uses a member of the class at another. -/
def Refers (classes : List Class) (i j : Nat) : Prop :=
  ∃ c d, classes[i]? = some c ∧ classes[j]? = some d ∧ c.UsesMember d

section

variable {classes : List Class} (distinct : (classes.map (·.name)).Nodup) {i j : Nat}

include distinct

theorem positionIff {name : String} :
    (classes.reverse.findIdx? (·.name == name)).map (fun k => classes.length - 1 - k) = some j ↔
      ∃ d, classes[j]? = some d ∧ d.name = name := by
  have found : ∀ k, classes.reverse.findIdx? (·.name == name) = some k →
      ∃ d, classes[classes.length - 1 - k]? = some d ∧ d.name = name := by
    intro k is
    obtain ⟨low, here, _⟩ := List.findIdx?_eq_some_iff_getElem.1 is
    refine ⟨classes.reverse[k], ?_, by simpa using here⟩
    rw [← List.getElem?_reverse (by simpa using low), List.getElem?_eq_getElem low]
  constructor
  · intro is
    obtain ⟨k, at_, rfl⟩ := Option.map_eq_some_iff.1 is
    exact found k at_
  · intro there
    obtain ⟨d, at_, is⟩ := there
    cases searched : classes.reverse.findIdx? (·.name == name) with
    | none =>
      have missing := List.findIdx?_eq_none_iff.1 searched d (List.mem_reverse.2 (List.mem_of_getElem? at_))
      simp [is] at missing
    | some k =>
      obtain ⟨d', at', is'⟩ := found k searched
      have same : (classes.map (·.name))[j]? = (classes.map (·.name))[classes.length - 1 - k]? := by
        rw [List.getElem?_map, List.getElem?_map, at_, at', Option.map_some, Option.map_some, is, is']
      have low : j < (classes.map (·.name)).length := by
        rw [List.length_map]
        exact (List.getElem?_eq_some_iff.1 at_).1
      rw [Option.map_some, (List.getElem?_inj low distinct).1 same]

theorem usesIff : j ∈ uses classes i ↔ Refers classes i j ∧ i ≠ j := by
  unfold uses Refers
  cases at_ : classes[i]? with
  | none => simp
  | some c =>
    simp only [List.mem_mergeSort, List.mem_filterMap, positionIff distinct, Class.dependenciesIff]
    constructor
    · intro member
      obtain ⟨name, ⟨used, other⟩, d, there, rfl⟩ := member
      refine ⟨⟨c, d, rfl, there, used⟩, ?_⟩
      intro same
      subst same
      exact other (congrArg Class.name (Option.some.inj (there.symm.trans at_)))
    · intro member
      obtain ⟨⟨c, d, is, there, used⟩, apart⟩ := member
      cases is
      refine ⟨d.name, ⟨used, ?_⟩, d, there, rfl⟩
      intro same
      have low : i < (classes.map (·.name)).length := by
        rw [List.length_map]
        exact (List.getElem?_eq_some_iff.1 at_).1
      refine apart ((List.getElem?_inj low distinct).1 ?_)
      rw [List.getElem?_map, List.getElem?_map, at_, there, Option.map_some, Option.map_some, same]

end

/-- For units of different names there is one walk through them all. It lists every unit once, and a unit after those that it
uses and that do not need it. -/
theorem dependenciesFirst (classes : List Class) (distinct : (classes.map (·.name)).Nodup) :
    (∃ w, Walks (uses classes) ⟨[], []⟩ (List.range classes.length) w ∧ w.order = order classes) ∧
      (order classes).Perm (List.range classes.length) ∧
      ∀ u v, Refers classes u v → ¬ TransGen (Refers classes) v u → [v, u].Sublist (order classes) := by
  have low := usesLow classes
  refine ⟨LoadOrder.ofWalks low, LoadOrder.ofPerm low, ?_⟩
  intro u v refers unneeded
  have apart : u ≠ v := by
    intro same
    subst same
    exact unneeded (.single refers)
  have used : v ∈ uses classes u := (usesIff distinct).2 ⟨refers, apart⟩
  have inside : u ∈ order classes := by
    obtain ⟨c, _, at_, _⟩ := refers
    exact (LoadOrder.ofPerm low).mem_iff.2 (List.mem_range.2 (List.getElem?_eq_some_iff.1 at_).1)
  obtain ⟨before, after, split⟩ := List.append_of_mem inside
  have first : v ∈ before := by
    refine (LoadOrder.ofSorted low before u after split v used).resolve_right ?_
    have known : (fun i j => j ∈ uses classes i) ≤ Refers classes := fun i j member => ((usesIff distinct).1 member).1
    exact fun needs => unneeded (TransGen.mono known v u needs)
  rw [split, ← List.singleton_append]
  exact (List.singleton_sublist.2 first).append (List.cons_sublist_cons.2 (List.nil_sublist _))

def maker (name : String) (made : List String) : Class :=
  ⟨name, [], [], [⟨⟨name, "make", [], .void, true⟩, (made.map Op.new).toArray, #[], [], 0, 1⟩]⟩

theorem makerUses {name : String} {made : List String} {d : Class} : (maker name made).UsesMember d ↔ d.name ∈ made := by
  simp [Class.UsesMember, maker, Op.memberClass?]

/-- The first class uses both others and one that is unknown, and these use each other. -/
def ring : List Class := [maker "a" ["b", "c", "z"], maker "b" ["c"], maker "c" ["b"]]

theorem ringAfterItsParts : (ring.map (·.name)).Nodup ∧ Refers ring 0 1 ∧ ¬ TransGen (Refers ring) 1 0 ∧
    [1, 0].Sublist (order ring) := by
  have distinct : (ring.map (·.name)).Nodup := by decide
  have refers : Refers ring 0 1 := ⟨_, _, rfl, rfl, makerUses.2 (by simp [maker])⟩
  have unneeded : ¬ TransGen (Refers ring) 1 0 := by
    intro needs
    obtain ⟨k, _, c, d, at_, first, uses⟩ := TransGen.tail'_iff.1 needs
    cases first
    have member := List.mem_of_getElem? at_
    simp only [ring, List.mem_cons, List.not_mem_nil, or_false] at member
    obtain rfl | rfl | rfl := member <;> exact absurd (makerUses.1 uses) (by decide)
  exact ⟨distinct, refers, unneeded, (dependenciesFirst ring distinct).2.2 0 1 refers unneeded⟩

end Load

end QueryMachine
