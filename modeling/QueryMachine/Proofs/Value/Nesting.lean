import Mathlib.Data.List.Perm.Subperm
import Mathlib.Data.Nat.Find
import QueryMachine.Value.Equality

/-! How deep values nest. What has no cycle nests no deeper than there are cells, so that equality, which looks that
deep, is given by its own recursion. -/
namespace QueryMachine.Heap

variable {h g : Heap} {v w p : Value} {n m : Nat}

def parts (h : Heap) : Value → List Value
  | .list a => (h.list a).toList
  | .map a => (h.map a).map (·.1) ++ (h.map a).map (·.2)
  | .record a => (h.record a).entries.map (·.2)
  | _ => []

def Within (h : Heap) : Nat → Value → Prop
  | 0, v => h.parts v = []
  | n + 1, v => ∀ p ∈ h.parts v, h.Within n p

inductive Acyclic (h : Heap) : Value → Prop
  | of {v : Value} (inner : ∀ p ∈ h.parts v, Acyclic h p) : Acyclic h v

theorem Within.succ (within : h.Within n v) : h.Within (n + 1) v := by
  induction n generalizing v with
  | zero =>
    intro p inside
    rw [show h.parts v = [] from within] at inside
    contradiction
  | succ n ih => exact fun p inside => ih (within p inside)

theorem Within.mono (within : h.Within n v) (le : n ≤ m) : h.Within m v := by
  induction le with
  | refl => exact within
  | step _ ih => exact ih.succ

theorem Within.part (within : h.Within n v) (inside : p ∈ h.parts v) : h.Within n p := by
  cases n with
  | zero =>
    rw [show h.parts v = [] from within] at inside
    contradiction
  | succ n => exact Within.succ (within p inside)

theorem Acyclic.within (acyclic : h.Acyclic v) : ∃ n, h.Within n v := by
  induction acyclic with
  | @of v _ ih =>
    -- One bound for all parts: the largest of theirs.
    suffices all : ∀ ps : List Value, (∀ p ∈ ps, ∃ n, h.Within n p) → ∃ n, ∀ p ∈ ps, h.Within n p by
      obtain ⟨n, deep⟩ := all (h.parts v) ih
      exact ⟨n + 1, deep⟩
    intro ps each
    induction ps with
    | nil => exact ⟨0, nofun⟩
    | cons p ps rest =>
      rw [List.forall_mem_cons] at each
      obtain ⟨n, first⟩ := each.1
      obtain ⟨m, others⟩ := rest each.2
      refine ⟨max n m, List.forall_mem_cons.2 ⟨first.mono (Nat.le_max_left n m), ?_⟩⟩
      exact fun q inside => (others q inside).mono (Nat.le_max_right n m)

/-! ### No deeper than there are cells -/

def Exactly (h : Heap) (n : Nat) (v : Value) : Prop := h.Within n v ∧ ∀ k < n, ¬ h.Within k v

theorem Exactly.unique (first : h.Exactly n v) (second : h.Exactly m v) : n = m := by
  rcases lt_trichotomy n m with less | same | more
  · exact absurd first.1 (second.2 n less)
  · exact same
  · exact absurd second.1 (first.2 m more)

theorem Within.exactly (within : h.Within n v) : ∃ m, h.Exactly m v := by
  classical
  have some : ∃ n, h.Within n v := ⟨n, within⟩
  exact ⟨Nat.find some, Nat.find_spec some, fun _ less => Nat.find_min some less⟩

theorem Exactly.part (deep : h.Exactly (n + 1) v) : ∃ p ∈ h.parts v, h.Exactly n p := by
  by_contra none
  push Not at none
  cases n with
  | zero =>
    refine deep.2 0 (Nat.succ_pos 0) (List.eq_nil_iff_forall_not_mem.2 ?_)
    exact fun p inside => none p inside ⟨deep.1 p inside, nofun⟩
  | succ n =>
    refine deep.2 (n + 1) (Nat.lt_succ_self _) ?_
    intro p inside
    have less : ∃ k < n + 1, h.Within k p := by
      by_contra deeper
      push Not at deeper
      exact none p inside ⟨deep.1 p inside, deeper⟩
    obtain ⟨k, below, within⟩ := less
    exact within.mono (Nat.le_of_lt_succ below)

def cells (h : Heap) : List Value :=
  (List.range h.lists.size).map .list ++ ((List.range h.maps.size).map .map ++ (List.range h.records.size).map .record)

theorem cellsLength (h : Heap) : h.cells.length ≤ h.size := by
  simp [cells, size]
  omega

theorem cellOfPart (inside : p ∈ h.parts v) : v ∈ h.cells := by
  cases v with
  | list a =>
    have inRange : a < h.lists.size := by
      by_contra out
      simp [parts, list, Array.getD, out] at inside
    simp [cells, inRange]
  | map a =>
    have inRange : a < h.maps.size := by
      by_contra out
      simp [parts, map, Array.getD, out] at inside
    simp [cells, inRange]
  | record a =>
    have inRange : a < h.records.size := by
      by_contra out
      simp [parts, record, Array.getD, out, Record.empty] at inside
    simp [cells, inRange]
  | _ => contradiction

theorem Exactly.descent (deep : h.Exactly n v) :
    ∃ us : List Value, us.length = n ∧ us.Nodup ∧ us ⊆ h.cells ∧ ∀ u ∈ us, ∃ k ≤ n, h.Exactly k u := by
  induction n generalizing v with
  | zero => exact ⟨[], rfl, .nil, nofun, nofun⟩
  | succ n ih =>
    obtain ⟨p, inside, less⟩ := deep.part
    obtain ⟨us, length, nodup, cells, depths⟩ := ih less
    have new : v ∉ us := by
      intro member
      obtain ⟨k, below, again⟩ := depths v member
      have := again.unique deep
      omega
    refine ⟨v :: us, by simp [length], List.nodup_cons.2 ⟨new, nodup⟩, ?_, ?_⟩
    · exact List.cons_subset.2 ⟨cellOfPart inside, cells⟩
    · rw [List.forall_mem_cons]
      refine ⟨⟨n + 1, le_rfl, deep⟩, fun u member => ?_⟩
      obtain ⟨k, below, exact⟩ := depths u member
      exact ⟨k, Nat.le_succ_of_le below, exact⟩

theorem Acyclic.withinSize (acyclic : h.Acyclic v) : h.Within h.size v := by
  obtain ⟨n, within⟩ := acyclic.within
  obtain ⟨m, exact⟩ := within.exactly
  obtain ⟨us, rfl, nodup, cells, _⟩ := exact.descent
  exact exact.1.mono (Nat.le_trans (nodup.subperm cells).length_le h.cellsLength)

/-! ### Equality looks at the parts alone -/

theorem equalByLists (h : Heap) (inner : Value → Value → Bool) (x y : Address) :
    h.equalBy inner (.list x) (.list y) = (x == y || ((h.list x).size == (h.list y).size
      && ((h.list x).toList.zip (h.list y).toList).all fun e => inner e.1 e.2)) := rfl

theorem equalByMaps (h : Heap) (inner : Value → Value → Bool) (x y : Address) :
    h.equalBy inner (.map x) (.map y) = (x == y || ((h.map x).length == (h.map y).length
      && (h.map x).all fun e => (h.entry? inner (h.map y) e.1).any fun f => inner e.2 f.2)) := rfl

theorem equalByRecords (h : Heap) (inner : Value → Value → Bool) (x y : Address) :
    h.equalBy inner (.record x) (.record y) = (x == y || ((h.record x).size == (h.record y).size
      && (h.record x).entries.all fun e => ((h.record y).get? e.1).any (inner e.2))) := rfl

theorem allCongr {α : Type} {xs : List α} {f k : α → Bool} (same : ∀ x ∈ xs, f x = k x) : xs.all f = xs.all k := by
  induction xs with
  | nil => rfl
  | cons x xs ih =>
    rw [List.forall_mem_cons] at same
    rw [List.all_cons, List.all_cons, same.1, ih same.2]

structure Shares (h g : Heap) (v : Value) : Prop where
  list : ∀ a, v = .list a → g.list a = h.list a
  map : ∀ a, v = .map a → g.map a = h.map a
  record : ∀ a, v = .record a → g.record a = h.record a

theorem Shares.refl (h : Heap) (v : Value) : h.Shares h v := ⟨fun _ _ => rfl, fun _ _ => rfl, fun _ _ => rfl⟩

theorem entryCongr {eq eq' : Value → Value → Bool} {entries : List (Value × Value)} {key : Value}
    (hash : g.hashKey = h.hashKey) (same : ∀ e ∈ entries, eq' key e.1 = eq key e.1) :
    g.entry? eq' entries key = h.entry? eq entries key := by
  unfold entry?
  rw [hash]
  induction entries with
  | nil => rfl
  | cons e es ih =>
    rw [List.forall_mem_cons] at same
    simp only [List.find?_cons, same.1]
    rw [ih same.2]

theorem equalByCongr {inner inner' : Value → Value → Bool} (hash : g.hashKey = h.hashKey) (left : h.Shares g v)
    (right : h.Shares g w) (same : ∀ p ∈ h.parts v, ∀ q ∈ h.parts w, inner' p q = inner p q) :
    g.equalBy inner' v w = h.equalBy inner v w := by
  cases v with
  | list x =>
    cases w with
    | list y =>
      rw [equalByLists, equalByLists, left.list x rfl, right.list y rfl]
      congr 2
      refine allCongr fun e member => ?_
      exact same e.1 (List.of_mem_zip member).1 e.2 (List.of_mem_zip member).2
    | _ => rfl
  | map x =>
    cases w with
    | map y =>
      have key : ∀ e ∈ h.map x, e.1 ∈ h.parts (.map x) := fun e member =>
        List.mem_append_left _ (List.mem_map_of_mem member)
      have value : ∀ (a : Address), ∀ e ∈ h.map a, e.2 ∈ h.parts (.map a) := fun a e member =>
        List.mem_append_right _ (List.mem_map_of_mem member)
      rw [equalByMaps, equalByMaps, left.map x rfl, right.map y rfl]
      congr 2
      refine allCongr fun e member => ?_
      have found : g.entry? inner' (h.map y) e.1 = h.entry? inner (h.map y) e.1 :=
        entryCongr hash fun f other => same _ (key e member) _ (List.mem_append_left _ (List.mem_map_of_mem other))
      rw [found]
      cases entry : h.entry? inner (h.map y) e.1 with
      | none => rfl
      | some f => exact same _ (value x e member) _ (value y f (List.mem_of_find?_eq_some entry))
    | _ => rfl
  | record x =>
    cases w with
    | record y =>
      rw [equalByRecords, equalByRecords, left.record x rfl, right.record y rfl]
      congr 2
      refine allCongr fun e member => ?_
      cases field : (h.record y).get? e.1 with
      | none => rfl
      | some value =>
        obtain ⟨f, found, rfl⟩ := Option.map_eq_some_iff.1 field
        exact same _ (List.mem_map_of_mem member) _ (List.mem_map_of_mem (List.mem_of_find?_eq_some found))
    | _ => rfl
  | boxed b =>
    cases w with
    | boxed c => cases b <;> cases c <;> rfl
    | _ => rfl
  | _ => cases w <;> rfl

theorem Within.stable (within : h.Within n v) (le : n ≤ m) (w : Value) : h.equalWithin m v w = h.equalWithin n v w := by
  induction n generalizing m v w with
  | zero =>
    have none : h.parts v = [] := within
    have alone : ∀ inner, h.equalBy inner v w = h.equalBy (fun _ _ => false) v w := fun inner =>
      equalByCongr rfl (.refl h v) (.refl h w) (by rw [none]; nofun)
    cases m <;> exact alone _
  | succ n ih =>
    cases m with
    | zero => contradiction
    | succ m =>
      refine equalByCongr rfl (.refl h v) (.refl h w) ?_
      exact fun p inside q _ => ih (within p inside) (Nat.le_of_succ_le_succ le) q

theorem Acyclic.equalsIs (acyclic : h.Acyclic v) (w : Value) : h.equals v w = h.equalBy h.equals v w := by
  have within := acyclic.withinSize
  refine equalByCongr rfl (.refl h v) (.refl h w) ?_
  intro p inside q _
  exact ((within.part inside).stable (Nat.le_succ _) q).symm

end QueryMachine.Heap
