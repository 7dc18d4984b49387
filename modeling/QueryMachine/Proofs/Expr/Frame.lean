import QueryMachine.Proofs.Code.Emission
import QueryMachine.Session

/-! Frames only grow while a program is compiled, so a local that was made once stays where it is. -/
namespace QueryMachine

namespace Frames

def Generated (name : String) : Prop := ∃ rest, name = "$" ++ rest

/-- Frames that are there get no locals but temporaries. -/
structure Grows (fs fs' : Frames) : Prop where
  more : fs.table.size ≤ fs'.table.size
  locals : ∀ f, f < fs.table.size → ∃ temps : List (String × Ty), (fs'.frame f).locals = (fs.frame f).locals ++ temps ∧
    ∀ x ∈ temps, Generated x.1
  ancestors : ∀ f, f < fs.table.size → (fs'.frame f).ancestors = (fs.frame f).ancestors

theorem Grows.refl (fs : Frames) : fs.Grows fs where
  more := Nat.le_refl _
  locals _ _ := ⟨[], by simp, nofun⟩
  ancestors _ _ := rfl

theorem Grows.trans {fs fs' fs'' : Frames} (first : fs.Grows fs') (second : fs'.Grows fs'') : fs.Grows fs'' where
  more := Nat.le_trans first.more second.more
  locals f low := by
    obtain ⟨temps, is, generated⟩ := first.locals f low
    obtain ⟨temps', is', generated'⟩ := second.locals f (Nat.lt_of_lt_of_le low first.more)
    refine ⟨temps ++ temps', by rw [is', is, List.append_assoc], ?_⟩
    intro x inside
    rcases List.mem_append.1 inside with old | new
    · exact generated x old
    · exact generated' x new
  ancestors f low := (second.ancestors f (Nat.lt_of_lt_of_le low first.more)).trans (first.ancestors f low)

/-- A local that a frame has. -/
structure Has (fs : Frames) (l : Local) : Prop where
  frame : l.frame < fs.table.size
  here : (fs.frame l.frame).locals[l.index]? = some (l.name, l.type)

theorem Has.later {fs fs' : Frames} {l : Local} (has : fs.Has l) (grows : fs.Grows fs') : fs'.Has l where
  frame := Nat.lt_of_lt_of_le has.frame grows.more
  here := by
    obtain ⟨temps, is, _⟩ := grows.locals l.frame has.frame
    rw [is, List.getElem?_append_left (List.getElem?_eq_some_iff.1 has.here).1]
    exact has.here

theorem frameSet {fs : Frames} {f : FrameId} (low : f < fs.table.size) (x : Frame) (g : FrameId) :
    (Frames.mk (fs.table.setIfInBounds f x)).frame g = if g = f then x else fs.frame g := by
  unfold frame
  simp only [Array.getD_eq_getD_getElem?]
  by_cases same : g = f
  · subst same
    simp [low]
  · rw [if_neg same, Array.getElem?_setIfInBounds_ne (Ne.symm same)]

theorem setGrows {fs : Frames} {f : FrameId} {x : Frame} {temps : List (String × Ty)}
    (locals : x.locals = (fs.frame f).locals ++ temps) (generated : ∀ t ∈ temps, Generated t.1)
    (ancestors : x.ancestors = (fs.frame f).ancestors) : fs.Grows ⟨fs.table.setIfInBounds f x⟩ := by
  by_cases low : f < fs.table.size
  · refine ⟨by simp, ?_, ?_⟩
    · intro g _
      rw [frameSet low]
      split
      · next same => exact ⟨temps, same ▸ locals, generated⟩
      · exact ⟨[], by simp, nofun⟩
    · intro g _
      rw [frameSet low]
      split
      · next same => exact same ▸ ancestors
      · rfl
  · rw [Array.setIfInBounds_eq_of_size_le (Nat.le_of_not_lt low)]
    exact .refl fs

theorem Grows.setNew {fs fs' : Frames} {f : FrameId} (grows : fs.Grows fs') (new : fs.table.size ≤ f) (x : Frame) :
    fs.Grows ⟨fs'.table.setIfInBounds f x⟩ := by
  by_cases inside : f < fs'.table.size
  · refine ⟨by simpa using grows.more, ?_, ?_⟩
    · intro g low
      rw [frameSet inside, if_neg (Nat.ne_of_lt (Nat.lt_of_lt_of_le low new))]
      exact grows.locals g low
    · intro g low
      rw [frameSet inside, if_neg (Nat.ne_of_lt (Nat.lt_of_lt_of_le low new))]
      exact grows.ancestors g low
  · rw [Array.setIfInBounds_eq_of_size_le (Nat.le_of_not_lt inside)]
    exact grows

theorem allocateGrows (fs : Frames) (f : FrameId) {name : String} (generated : Generated name) (t : Ty) :
    fs.Grows (fs.allocate f name t).2 := by
  refine setGrows (x := { fs.frame f with locals := (fs.frame f).locals ++ [(name, t)] }) rfl ?_ rfl
  intro x inside
  rw [List.mem_singleton.1 inside]
  exact generated

theorem allocateHas {fs : Frames} {f : FrameId} (low : f < fs.table.size) (name : String) (t : Ty) :
    (fs.allocate f name t).2.Has (fs.allocate f name t).1 where
  frame := by simp [allocate, low]
  here := by
    simp only [allocate]
    rw [frameSet low, if_pos rfl]
    simp

theorem allocateInv {fs : Frames} {f : FrameId} (low : f < fs.table.size) {name : String} {t : Ty} {l : Local}
    (has : (fs.allocate f name t).2.Has l) : fs.Has l ∨ l = (fs.allocate f name t).1 := by
  obtain ⟨frame, here⟩ := has
  simp only [allocate, Array.size_setIfInBounds] at frame here ⊢
  rw [frameSet low] at here
  split at here
  · next same =>
    simp only [List.getElem?_append] at here
    split at here
    · exact .inl ⟨frame, by rw [same]; exact here⟩
    · next beyond =>
      right
      cases l with
      | mk lf li ln lt =>
        simp only at same here beyond
        have single : li - (fs.frame f).locals.length = 0 := by
          obtain ⟨low, _⟩ := List.getElem?_eq_some_iff.1 here
          exact Nat.lt_one_iff.1 low
        rw [single] at here
        simp only [List.getElem?_cons_zero, Option.some.injEq, Prod.mk.injEq] at here
        obtain ⟨rfl, rfl⟩ := here
        subst same
        congr 1
        omega
  · exact .inl ⟨frame, here⟩

structure AllocatedAll (fs : Frames) (f : FrameId) (ts : List (String × Ty)) (ls : List Local) (fs' : Frames) : Prop where
  typed : ls.map (fun l => (l.name, l.type)) = ts
  size : fs'.table.size = fs.table.size
  ancestors : (fs'.frame f).ancestors = (fs.frame f).ancestors
  locals : (fs'.frame f).locals = (fs.frame f).locals ++ ts
  others : ∀ g, g ≠ f → fs'.frame g = fs.frame g
  has : ∀ l ∈ ls, l.frame = f ∧ fs'.Has l
  only : ∀ l, fs'.Has l → fs.Has l ∨ l ∈ ls
  keeps : ∀ l, fs.Has l → fs'.Has l
  indexed : ∀ i (l : Local), ls[i]? = some l → l.index = (fs.frame f).locals.length + i

theorem allocatedAll (fs : Frames) {f : FrameId} (ts : List (String × Ty)) (low : f < fs.table.size) :
    fs.AllocatedAll f ts (fs.allocateAll f ts).1 (fs.allocateAll f ts).2 := by
  let made : Frames := ⟨fs.table.setIfInBounds f { fs.frame f with locals := (fs.frame f).locals ++ ts }⟩
  have size : made.table.size = fs.table.size := by simp [made]
  have frames (g : FrameId) : made.frame g = if g = f then { fs.frame f with locals := (fs.frame f).locals ++ ts } else fs.frame g :=
    frameSet low _ g
  have place (i : Nat) (l : Local) : (fs.allocateAll f ts).1[i]? = some l ↔
      ∃ x, ts[i]? = some x ∧ l = ⟨f, (fs.frame f).locals.length + i, x.1, x.2⟩ := by
    unfold allocateAll
    rw [List.getElem?_map, List.getElem?_zipIdx]
    cases ts[i]? with
    | none => simp
    | some x => simp [eq_comm]
  refine ⟨?_, size, ?_, ?_, ?_, ?_, ?_, ?_, ?_⟩
  · unfold allocateAll
    rw [List.map_map]
    exact List.zipIdx_map_fst _ _
  · change (made.frame f).ancestors = _
    rw [frames, if_pos rfl]
  · change (made.frame f).locals = _
    rw [frames, if_pos rfl]
  · exact fun g other => (frames g).trans (if_neg other)
  · intro l member
    obtain ⟨i, at_⟩ := List.getElem?_of_mem member
    obtain ⟨x, is, rfl⟩ := (place i l).1 at_
    refine ⟨rfl, Nat.lt_of_lt_of_eq low size.symm, ?_⟩
    change (made.frame f).locals[(fs.frame f).locals.length + i]? = some x
    rw [frames, if_pos rfl, List.getElem?_append_right (Nat.le_add_right _ _), Nat.add_sub_cancel_left]
    exact is
  · intro l ⟨low, here⟩
    change (made.frame l.frame).locals[l.index]? = some (l.name, l.type) at here
    rw [frames] at here
    split at here
    · next same =>
      rw [List.getElem?_append] at here
      split at here
      · exact .inl ⟨Nat.lt_of_lt_of_eq low size, same ▸ here⟩
      · next beyond =>
        refine .inr (List.mem_of_getElem? ((place (l.index - (fs.frame f).locals.length) l).2 ⟨_, here, ?_⟩))
        rw [Nat.add_sub_cancel' (Nat.le_of_not_lt beyond), ← same]
    · exact .inl ⟨Nat.lt_of_lt_of_eq low size, here⟩
  · intro l ⟨low, here⟩
    refine ⟨Nat.lt_of_lt_of_eq low size.symm, ?_⟩
    change (made.frame l.frame).locals[l.index]? = some (l.name, l.type)
    rw [frames]
    split
    · next same =>
      rw [← same, List.getElem?_append_left (List.getElem?_eq_some_iff.1 here).1]
      exact here
    · exact here
  · intro i l at_
    obtain ⟨x, _, rfl⟩ := (place i l).1 at_
    rfl

theorem tempSize (fs : Frames) (f : FrameId) (stem : String) (t : Ty) :
    (fs.temp f stem t).2.table.size = fs.table.size := by
  simp [temp, allocate]

theorem countGrows (fs : Frames) (f : FrameId) (n : Nat) :
    fs.Grows ⟨fs.table.setIfInBounds f { fs.frame f with temps := n }⟩ :=
  setGrows (x := { fs.frame f with temps := n }) (List.append_nil _).symm nofun rfl

theorem tempGrows (fs : Frames) (f : FrameId) (stem : String) (t : Ty) : fs.Grows (fs.temp f stem t).2 :=
  (countGrows fs (fs.root f) _).trans (allocateGrows _ f ⟨_, String.append_assoc ..⟩ t)

theorem tempHas {fs : Frames} {f : FrameId} (low : f < fs.table.size) (stem : String) (t : Ty) :
    (fs.temp f stem t).2.Has (fs.temp f stem t).1 := by
  refine allocateHas ?_ _ t
  simpa using low

theorem countFrame (fs : Frames) (f g : FrameId) (n : Nat) :
    ((Frames.mk (fs.table.setIfInBounds f { fs.frame f with temps := n })).frame g).locals = (fs.frame g).locals := by
  by_cases low : f < fs.table.size
  · rw [frameSet low]
    split
    · next same => rw [same]
    · rfl
  · rw [Array.setIfInBounds_eq_of_size_le (Nat.le_of_not_lt low)]

theorem tempInv {fs : Frames} {f : FrameId} (low : f < fs.table.size) {stem : String} {t : Ty} {l : Local}
    (has : (fs.temp f stem t).2.Has l) : fs.Has l ∨ l = (fs.temp f stem t).1 := by
  rcases allocateInv (by simpa using low) has with old | new
  · refine .inl ⟨by simpa using old.frame, ?_⟩
    rw [← old.here, countFrame]
  · exact .inr new

theorem tempLocals {fs : Frames} {f : FrameId} (low : f < fs.table.size) (stem : String) (t : Ty) :
    ((fs.temp f stem t).2.frame f).locals.map (·.2) = (fs.frame f).locals.map (·.2) ++ [t] := by
  unfold temp allocate
  dsimp only
  rw [frameSet (by simpa using low), if_pos rfl, List.map_append, countFrame]
  rfl

theorem tempIs (fs : Frames) (f : FrameId) (stem : String) (t : Ty) :
    (fs.temp f stem t).1.frame = f ∧ (fs.temp f stem t).1.type = t ∧
      (fs.temp f stem t).1.index = (fs.frame f).locals.length :=
  ⟨rfl, rfl, congrArg List.length (countFrame fs (fs.root f) f _)⟩

theorem pushFrame {fs : Frames} {x : Frame} {g : FrameId} (low : g < fs.table.size) :
    (Frames.mk (fs.table.push x)).frame g = fs.frame g := by
  simp [frame, Array.getD_eq_getD_getElem?, Array.getElem?_push, Nat.ne_of_lt low]

theorem pushNew (fs : Frames) (x : Frame) : (Frames.mk (fs.table.push x)).frame fs.table.size = x := by
  simp [frame, Array.getD_eq_getD_getElem?]

theorem pushGrows (fs : Frames) (x : Frame) : fs.Grows ⟨fs.table.push x⟩ where
  more := by simp
  locals g low := ⟨[], by rw [pushFrame low]; simp, nofun⟩
  ancestors g low := by rw [pushFrame low]

theorem pushInv {fs : Frames} {x : Frame} (empty : x.locals = []) {l : Local} (has : (Frames.mk (fs.table.push x)).Has l) :
    fs.Has l := by
  obtain ⟨frame, here⟩ := has
  simp only [Array.size_push] at frame
  by_cases new : l.frame = fs.table.size
  · rw [new, pushNew, empty] at here
    contradiction
  · have low : l.frame < fs.table.size := Nat.lt_of_le_of_ne (Nat.le_of_lt_succ frame) new
    rw [pushFrame low] at here
    exact ⟨low, here⟩

theorem ownHas {fs : Frames} {f : FrameId} (low : f < fs.table.size) {l : Local} (own : l ∈ fs.ownLocals f) :
    l.frame = f ∧ fs.Has l := by
  unfold ownLocals at own
  obtain ⟨x, inside, rfl⟩ := List.mem_map.1 own
  refine ⟨rfl, low, ?_⟩
  exact List.mk_mem_zipIdx_iff_getElem?.1 inside

theorem findRoot {fs : Frames} {f : FrameId} (low : f < fs.table.size) (outermost : (fs.frame f).ancestors = [])
    {name : String} {l : Local} (found : fs.find? f name = some l) : l.frame = f ∧ fs.Has l ∧ l.name = name := by
  unfold find? at found
  rw [outermost, List.findSome?_cons, List.findSome?_nil] at found
  split at found
  · next here =>
    cases found
    have own := List.mem_reverse.1 (List.mem_of_find?_eq_some here)
    exact ⟨(ownHas low own).1, (ownHas low own).2, by simpa using List.find?_some here⟩
  · contradiction

end Frames

structure Visible (root : FrameId) (items : List Local) (made fs : Frames) (σ : Slots) : Prop where
  grows : made.Grows fs
  root : ∀ l, l.frame = root → fs.Has l → ∃ s, σ.Holds l s
  items : ∀ l ∈ items, ∃ s, σ.Holds l s

namespace Visible

variable {root : FrameId} {items : List Local} {made fs : Frames} {σ : Slots}

theorem earlier {made' : Frames} (grows : made'.Grows made) (visible : Visible root items made fs σ) :
    Visible root items made' fs σ := ⟨grows.trans visible.grows, visible.root, visible.items⟩

theorem enter {f : FrameId} (visible : Visible root items made fs σ) (ts : List Ty) (other : root ≠ f)
    (others : ∀ l ∈ items, l.frame ≠ f) : Visible root items made fs (σ.enter f ts) where
  grows := visible.grows
  root l is has := by
    obtain ⟨s, holds⟩ := visible.root l is has
    exact ⟨s, Slots.enterOther (by rw [is]; exact other) holds⟩
  items l member := by
    obtain ⟨s, holds⟩ := visible.items l member
    exact ⟨s, Slots.enterOther (others l member) holds⟩

theorem add {l : Local} (visible : Visible root items made fs σ) (holds : ∃ s, σ.Holds l s) :
    Visible root (l :: items) made fs σ where
  grows := visible.grows
  root := visible.root
  items l' member := by
    rcases List.mem_cons.1 member with rfl | older
    · exact holds
    · exact visible.items l' older

end Visible

theorem enteredHolds {fs : Frames} {σ : Slots} {l : Local} (has : fs.Has l) :
    ∃ s, (σ.enter l.frame ((fs.frame l.frame).locals.map (·.2))).Holds l s ∧ σ.next ≤ s :=
  Slots.enterOwn (by rw [List.getElem?_map, has.here]; rfl)

end QueryMachine
