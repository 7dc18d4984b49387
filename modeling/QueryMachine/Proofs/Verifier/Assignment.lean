import QueryMachine.Code.Verify
import QueryMachine.Proofs.Effects

/-! What the verifier settles on. Its depths are an assignment that every transfer of control respects, and it
settles wherever there is such an assignment, on depths taken from it. -/
namespace QueryMachine.Verify

def after (op : Op) (depth : Nat) : Nat := depth - op.effect.1 + op.effect.2

def Obeys (t : Candidate) (D : Nat → Option Nat) (pc depth : Nat) : Prop :=
  ∃ op, t.ops[pc]? = some op ∧ checkOp t pc depth op = .ok () ∧
    (∀ l ∈ op.targets, D (t.position l) = some (after op depth)) ∧
    (op.fallsThrough = true → D (pc + 1) = some (after op depth))

structure Consistent (t : Candidate) (D : Nat → Option Nat) : Prop where
  start : D 0 = some 0
  handler : ∀ h ∈ t.handlers, D (t.position h.target) = some 1
  obeys : ∀ pc depth, D pc = some depth → Obeys t D pc depth
  region : ∀ h ∈ t.handlers, ∀ depth, D (t.position h.start) = some depth → depth = 0

def Progress.depthAt (p : Progress) (pc : Nat) : Option Nat := p.depths.getD pc none

structure Extends (p q : Progress) : Prop where
  size : q.depths.size = p.depths.size
  kept : ∀ pc d, p.depthAt pc = some d → q.depthAt pc = some d
  waiting : ∀ pc ∈ p.work, pc ∈ q.work
  fresh : ∀ pc d, q.depthAt pc = some d → p.depthAt pc = some d ∨ pc ∈ q.work
  maxStack : p.maxStack ≤ q.maxStack

theorem Extends.refl (p : Progress) : Extends p p :=
  ⟨rfl, fun _ _ h => h, fun _ h => h, fun _ _ h => .inl h, Nat.le_refl _⟩

theorem Extends.trans {p q r : Progress} (first : Extends p q) (second : Extends q r) : Extends p r where
  size := second.size.trans first.size
  kept pc d h := second.kept pc d (first.kept pc d h)
  waiting pc h := second.waiting pc (first.waiting pc h)
  fresh pc d h := by
    rcases second.fresh pc d h with old | new
    · rcases first.fresh pc d old with older | waits
      · exact .inl older
      · exact .inr (second.waiting pc waits)
    · exact .inr new
  maxStack := Nat.le_trans first.maxStack second.maxStack

def Reached (p : Progress) (pc depth : Nat) : Prop :=
  p.depthAt pc = some depth ∨ (p.depths.size ≤ pc ∧ pc ∈ p.work)

theorem Reached.extend {p q : Progress} {pc depth : Nat} (h : Reached p pc depth) (e : Extends p q) :
    Reached q pc depth := by
  rcases h with found | ⟨outside, waits⟩
  · exact .inl (e.kept pc depth found)
  · exact .inr ⟨e.size ▸ outside, e.waiting pc waits⟩

theorem depthAtSet {p : Progress} {pc other depth : Nat} :
    (p.depths.setIfInBounds pc (some depth)).getD other none =
      if other = pc ∧ pc < p.depths.size then some depth else p.depthAt other := by
  simp only [Progress.depthAt, Array.getD_eq_getD_getElem?, Array.getElem?_setIfInBounds]
  by_cases same : pc = other
  · subst same
    by_cases inside : pc < p.depths.size <;> simp [inside]
  · have different : ¬ other = pc := fun h => same h.symm
    simp [same, different]

theorem mergeCases {pc depth : Nat} {p q : Progress} (ok : merge pc depth p = .ok q) :
    (p.depthAt pc = some depth ∧ q = p) ∨ (p.depthAt pc = none ∧
      q = { p with depths := p.depths.setIfInBounds pc (some depth), work := pc :: p.work }) := by
  unfold merge at ok
  unfold Progress.depthAt
  cases found : p.depths.getD pc none with
  | some d =>
    simp only [found] at ok
    split at ok
    · next same =>
      cases ok
      exact .inl ⟨by rw [same], rfl⟩
    · contradiction
  | none =>
    simp only [found] at ok
    cases ok
    exact .inr ⟨rfl, rfl⟩

theorem mergeExtends {pc depth : Nat} {p q : Progress} (ok : merge pc depth p = .ok q) :
    Extends p q ∧ Reached q pc depth := by
  rcases mergeCases ok with ⟨found, rfl⟩ | ⟨found, rfl⟩
  · exact ⟨.refl _, .inl found⟩
  · refine ⟨⟨by simp, ?_, ?_, ?_, Nat.le_refl _⟩, ?_⟩
    · intro other d h
      change (p.depths.setIfInBounds pc (some depth)).getD other none = some d
      rw [depthAtSet, if_neg]
      · exact h
      · rintro ⟨rfl, _⟩
        rw [found] at h
        contradiction
    · intro other h
      exact List.mem_cons_of_mem pc h
    · intro other d h
      change (p.depths.setIfInBounds pc (some depth)).getD other none = some d at h
      rw [depthAtSet] at h
      split at h
      · next inside => exact .inr (inside.1 ▸ List.mem_cons_self)
      · exact .inl h
    · by_cases inside : pc < p.depths.size
      · left
        change (p.depths.setIfInBounds pc (some depth)).getD pc none = some depth
        rw [depthAtSet, if_pos ⟨rfl, inside⟩]
      · right
        exact ⟨by simpa using inside, List.mem_cons_self⟩

theorem mergeAllExtends {α : Type} (f : α → Nat) (depth : Nat) {xs : List α} {p q : Progress}
    (ok : xs.foldlM (fun p x => merge (f x) depth p) p = .ok q) :
    Extends p q ∧ ∀ x ∈ xs, Reached q (f x) depth := by
  induction xs generalizing p with
  | nil =>
    cases ok
    exact ⟨.refl _, by simp⟩
  | cons x xs ih =>
    rw [List.foldlM_cons] at ok
    cases first : merge (f x) depth p with
    | error r => rw [first] at ok; contradiction
    | ok mid =>
      rw [first] at ok
      obtain ⟨head, reached⟩ := mergeExtends first
      obtain ⟨tail, rest⟩ := ih ok
      refine ⟨head.trans tail, ?_⟩
      intro y member
      rcases List.mem_cons.1 member with rfl | later
      · exact reached.extend tail
      · exact rest y later

structure Visited (t : Candidate) (p : Progress) (pc depth : Nat) : Prop where
  obeys : ∃ op, t.ops[pc]? = some op ∧ checkOp t pc depth op = .ok () ∧
    (∀ l ∈ op.targets, Reached p (t.position l) (after op depth)) ∧
    (op.fallsThrough = true → Reached p (pc + 1) (after op depth)) ∧ after op depth ≤ p.maxStack
  bounded : depth ≤ p.maxStack

theorem visitExtends {t : Candidate} {pc : Nat} {p q : Progress} (ok : visit t pc p = .ok q) :
    Extends p q ∧ Visited t q pc ((p.depthAt pc).getD 0) ∧ pc < t.ops.size := by
  unfold visit at ok
  cases found : t.ops[pc]? with
  | none => simp only [found] at ok; contradiction
  | some op =>
    simp only [found] at ok
    change (checkOp t pc ((p.depthAt pc).getD 0) op >>= _) = _ at ok
    generalize depthIs : (p.depths.getD pc none).getD 0 = depth at ok
    have same : (p.depthAt pc).getD 0 = depth := depthIs
    rw [same] at ok ⊢
    obtain ⟨_, checked, ok⟩ := exceptBind ok
    obtain ⟨mid, merged, ok⟩ := exceptBind ok
    have raised : Extends p { p with maxStack := max p.maxStack (max (after op depth) depth) } :=
      ⟨rfl, fun _ _ h => h, fun _ h => h, fun _ _ h => .inl h, Nat.le_max_left _ _⟩
    obtain ⟨branching, targets⟩ := mergeAllExtends t.position (after op depth) merged
    have high : max (after op depth) depth ≤ mid.maxStack :=
      Nat.le_trans (Nat.le_max_right _ _) branching.maxStack
    have falling : Extends mid q ∧ (op.fallsThrough = true → Reached q (pc + 1) (after op depth)) := by
      split at ok
      · obtain ⟨e, reached⟩ := mergeExtends ok
        exact ⟨e, fun _ => reached⟩
      · next stays =>
        cases ok
        exact ⟨.refl _, fun h => absurd h stays⟩
    have last := falling.1.maxStack
    refine ⟨raised.trans (branching.trans falling.1), ⟨⟨op, found, checked, ?_, falling.2, ?_⟩, ?_⟩,
      (Array.getElem?_eq_some_iff.1 found).1⟩
    · intro l member
      exact (targets l member).extend falling.1
    · omega
    · omega

/-! ### The rounds -/

def Progress.pending (p : Progress) : Nat :=
  p.depths.toList.countP (·.isNone) + p.work.countP (· < p.depths.size)

theorem mergePending {pc depth : Nat} {p q : Progress} (ok : merge pc depth p = .ok q) :
    q.pending ≤ p.pending := by
  rcases mergeCases ok with ⟨_, rfl⟩ | ⟨found, rfl⟩
  · exact Nat.le_refl _
  · unfold Progress.pending
    simp only [Array.toList_setIfInBounds, Array.size_setIfInBounds, List.countP_cons]
    by_cases inside : pc < p.depths.size
    · have listed : pc < p.depths.toList.length := by simpa using inside
      have empty : p.depths.toList[pc].isNone = true := by
        have : p.depths[pc]? = some p.depths[pc] := Array.getElem?_eq_getElem inside
        simp only [Progress.depthAt, Array.getD_eq_getD_getElem?, this, Option.getD_some] at found
        simp [found]
      have positive : 0 < p.depths.toList.countP (·.isNone) :=
        List.countP_pos_iff.2 ⟨_, List.getElem_mem listed, empty⟩
      rw [List.countP_set listed]
      simp only [empty, inside, Option.isNone_some, decide_true, if_true, Bool.false_eq_true, if_false]
      omega
    · have outside : p.depths.toList.length ≤ pc := by simpa using inside
      rw [List.set_eq_of_length_le outside]
      simp [inside]

theorem mergeAllPending {α : Type} (f : α → Nat) (depth : Nat) {xs : List α} {p q : Progress}
    (ok : xs.foldlM (fun p x => merge (f x) depth p) p = .ok q) : q.pending ≤ p.pending := by
  induction xs generalizing p with
  | nil => cases ok; exact Nat.le_refl _
  | cons x xs ih =>
    rw [List.foldlM_cons] at ok
    obtain ⟨mid, first, rest⟩ := exceptBind ok
    exact Nat.le_trans (ih rest) (mergePending first)

theorem visitPending {t : Candidate} {pc : Nat} {p q : Progress} (ok : visit t pc p = .ok q) :
    q.pending ≤ p.pending := by
  unfold visit at ok
  cases found : t.ops[pc]? with
  | none => simp only [found] at ok; contradiction
  | some op =>
    simp only [found] at ok
    obtain ⟨_, _, ok⟩ := exceptBind ok
    obtain ⟨mid, merged, ok⟩ := exceptBind ok
    have branching := mergeAllPending t.position _ merged
    have falling : q.pending ≤ mid.pending := by
      split at ok
      · exact mergePending ok
      · cases ok; exact Nat.le_refl _
    exact Nat.le_trans falling branching

structure Sound (t : Candidate) (p : Progress) : Prop where
  size : p.depths.size = t.ops.size + 1
  start : Reached p 0 0
  handler : ∀ h ∈ t.handlers, Reached p (t.position h.target) 1
  visited : ∀ pc d, p.depthAt pc = some d → pc ∈ p.work ∨ Visited t p pc d

def Round (t : Candidate) (p : Progress) (out : Except Rejection Progress) : Prop :=
  ∃ before pc rest, p.work = before ++ pc :: rest ∧ visit t pc { p with work := before ++ rest } = out

inductive Runs (t : Candidate) : Progress → Except Rejection Progress → Prop where
  | finished {p : Progress} (nothing : p.work = []) : Runs t p (.ok p)
  | rejected {p : Progress} {r : Rejection} (round : Round t p (.error r)) : Runs t p (.error r)
  | next {p q : Progress} {out : Except Rejection Progress} (round : Round t p (.ok q)) (later : Runs t q out) :
      Runs t p out

theorem roundSize {t : Candidate} {p q : Progress} (round : Round t p (.ok q)) : q.depths.size = p.depths.size := by
  obtain ⟨_, _, _, _, ok⟩ := round
  exact (visitExtends ok).1.size

theorem roundPending {t : Candidate} {p q : Progress} (size : p.depths.size = t.ops.size + 1)
    (round : Round t p (.ok q)) : q.pending < p.pending := by
  obtain ⟨before, pc, rest, waits, ok⟩ := round
  have inside := (visitExtends ok).2.2
  have fewer : ({ p with work := before ++ rest } : Progress).pending + 1 = p.pending := by
    have low : pc < p.depths.size := by omega
    simp only [Progress.pending, waits, List.countP_append, List.countP_cons, low, decide_true, if_true]
    omega
  have shrinks := visitPending ok
  omega

theorem roundSound {t : Candidate} {p q : Progress} (sound : Sound t p) (round : Round t p (.ok q)) : Sound t q := by
  obtain ⟨before, pc, rest, waits, ok⟩ := round
  obtain ⟨e, visited, inside⟩ := visitExtends ok
  have left : ∀ {other}, other ∈ p.work → other = pc ∨ other ∈ before ++ rest := by
    intro other listed
    rw [waits, List.mem_append, List.mem_cons] at listed
    rw [List.mem_append]
    exact or_left_comm.1 listed
  -- The position taken off the list lies inside the table, so those that wait outside still wait.
  have still : ∀ {pc' d}, Reached p pc' d → Reached q pc' d := by
    intro pc' d h
    rcases h with found | ⟨outside, listed⟩
    · exact .inl (e.kept pc' d found)
    · have size := sound.size
      rcases left listed with rfl | later
      · omega
      · exact .inr ⟨e.size ▸ outside, e.waiting pc' later⟩
  refine ⟨e.size.trans sound.size, still sound.start, fun h member => still (sound.handler h member), ?_⟩
  intro other d found
  rcases e.fresh other d found with old | new
  · rcases sound.visited other d old with listed | done
    · rcases left listed with rfl | later
      · right
        have same : ({ p with work := before ++ rest } : Progress).depthAt other = some d := old
        rw [same] at visited
        exact visited
      · exact .inl (e.waiting other later)
    · right
      obtain ⟨op, atPc, checked, targets, falls, high⟩ := done.obeys
      refine ⟨⟨op, atPc, checked, fun l member => still (targets l member), fun h => still (falls h),
        Nat.le_trans high e.maxStack⟩, Nat.le_trans done.bounded e.maxStack⟩
  · exact .inl new

theorem runsSound {t : Candidate} {p q : Progress} {out : Except Rejection Progress} (sound : Sound t p)
    (runs : Runs t p out) (ok : out = .ok q) : Sound t q ∧ q.work = [] := by
  induction runs with
  | finished nothing =>
    cases ok
    exact ⟨sound, nothing⟩
  | rejected => contradiction
  | next round _ ih => exact ih (roundSound sound round) ok

theorem exploreRuns {t : Candidate} {fuel : Nat} {p : Progress} (size : p.depths.size = t.ops.size + 1)
    (enough : p.pending < fuel) : Runs t p (explore t fuel p) := by
  induction fuel generalizing p with
  | zero => omega
  | succ fuel ih =>
    unfold explore
    cases work : p.work with
    | nil => exact .finished work
    | cons pc rest =>
      simp only
      cases visited : visit t pc { p with work := rest } with
      | error r => exact .rejected ⟨[], pc, rest, work, visited⟩
      | ok q =>
        have round : Round t p (.ok q) := ⟨[], pc, rest, work, visited⟩
        have shrinks := roundPending size round
        exact .next round (ih ((roundSize round).trans size) (by omega))

theorem startPending (n : Nat) : (⟨Array.replicate n none, [], 0⟩ : Progress).pending = n := by
  simp [Progress.pending, List.countP_replicate]

theorem checkRegionsIff {t : Candidate} {p : Progress} : checkRegions t p = .ok () ↔
    ∀ h ∈ t.handlers, ∀ d, p.depthAt (t.position h.start) = some d → d = 0 := by
  unfold checkRegions
  rw [exceptForM]
  refine forall_congr' fun h => imp_congr_right fun _ => ?_
  unfold Progress.depthAt
  cases p.depths.getD (t.position h.start) none with
  | none => simp
  | some d => cases d <;> simp

def entered (t : Candidate) : Except Rejection Progress := do
  let p ← merge 0 0 ⟨Array.replicate (t.ops.size + 1) none, [], 0⟩
  t.handlers.foldlM (fun p h => merge (t.position h.target) 1 p) p

theorem enteredSound {t : Candidate} {p : Progress} (ok : entered t = .ok p) :
    Sound t p ∧ p.pending ≤ t.ops.size + 1 := by
  obtain ⟨first, start, handled⟩ := exceptBind ok
  obtain ⟨fromStart, atStart⟩ := mergeExtends start
  obtain ⟨fromFirst, atHandlers⟩ := mergeAllExtends (fun h : Handler => t.position h.target) 1 handled
  refine ⟨⟨?_, atStart.extend fromFirst, atHandlers, ?_⟩, ?_⟩
  · rw [fromFirst.size, fromStart.size]; simp
  · intro pc d found
    rcases (fromStart.trans fromFirst).fresh pc d found with none | waits
    · simp only [Progress.depthAt, Array.getD_eq_getD_getElem?, Array.getElem?_replicate] at none
      split at none <;> contradiction
    · exact .inl waits
  · have few := Nat.le_trans (mergeAllPending (fun h : Handler => t.position h.target) 1 handled) (mergePending start)
    rwa [startPending] at few

theorem settledIs {t : Candidate} : settled t = (do
    let p ← entered t
    let p ← explore t (t.ops.size + 2) p
    checkRegions t p
    return p) := by
  unfold settled entered
  rw [bind_assoc]

theorem enteredRuns {t : Candidate} {p : Progress} (enters : entered t = .ok p) :
    Runs t p (explore t (t.ops.size + 2) p) := by
  obtain ⟨sound, few⟩ := enteredSound enters
  exact exploreRuns sound.size (by omega)

theorem settledRuns {t : Candidate} {p : Progress} (ok : settled t = .ok p) :
    ∃ first, entered t = .ok first ∧ Runs t first (.ok p) ∧ checkRegions t p = .ok () := by
  rw [settledIs] at ok
  obtain ⟨first, enters, ok⟩ := exceptBind ok
  obtain ⟨last, explored, ok⟩ := exceptBind ok
  obtain ⟨_, regions, ok⟩ := exceptBind ok
  cases ok
  exact ⟨first, enters, explored ▸ enteredRuns enters, regions⟩

theorem ranConsistent {t : Candidate} {first p : Progress} (enters : entered t = .ok first)
    (runs : Runs t first (.ok p)) (regions : checkRegions t p = .ok ()) :
    Consistent t p.depthAt ∧ ∀ pc d, p.depthAt pc = some d → d ≤ p.maxStack ∧
      ∃ op, t.ops[pc]? = some op ∧ after op d ≤ p.maxStack := by
  obtain ⟨sound, finished⟩ := runsSound (enteredSound enters).1 runs rfl
  -- With nothing left to visit, to have been reached is to have a depth.
  have known : ∀ {pc d}, Reached p pc d → p.depthAt pc = some d := by
    intro pc d h
    rcases h with found | ⟨_, waits⟩
    · exact found
    · rw [finished] at waits; contradiction
  have done : ∀ pc d, p.depthAt pc = some d → Visited t p pc d := by
    intro pc d found
    rcases sound.visited pc d found with waits | h
    · rw [finished] at waits; contradiction
    · exact h
  refine ⟨⟨known sound.start, fun h member => known (sound.handler h member), ?_, checkRegionsIff.1 regions⟩, ?_⟩
  · intro pc d found
    obtain ⟨op, atPc, checked, targets, falls, _⟩ := (done pc d found).obeys
    exact ⟨op, atPc, checked, fun l member => known (targets l member), fun h => known (falls h)⟩
  · intro pc d found
    obtain ⟨op, atPc, _, _, _, high⟩ := (done pc d found).obeys
    exact ⟨(done pc d found).bounded, op, atPc, high⟩

theorem settledConsistent {t : Candidate} {p : Progress} (ok : settled t = .ok p) :
    Consistent t p.depthAt ∧ ∀ pc d, p.depthAt pc = some d → d ≤ p.maxStack ∧
      ∃ op, t.ops[pc]? = some op ∧ after op d ≤ p.maxStack := by
  obtain ⟨_, enters, runs, regions⟩ := settledRuns ok
  exact ranConsistent enters runs regions

/-! ### Where there is an assignment, the verifier settles -/

def Passed (t : Candidate) (D : Nat → Option Nat) (depth : Nat) : Prop :=
  ∃ pc d op, D pc = some d ∧ t.ops[pc]? = some op ∧ (depth = d ∨ depth = after op d)

theorem Passed.max {t : Candidate} {D : Nat → Option Nat} {m n : Nat} (first : Passed t D m) (second : Passed t D n) :
    Passed t D (Max.max m n) := by
  rcases Nat.le_total m n with low | low
  · rwa [Nat.max_eq_right low]
  · rwa [Nat.max_eq_left low]

structure Agrees (t : Candidate) (D : Nat → Option Nat) (p : Progress) : Prop where
  size : p.depths.size = t.ops.size + 1
  same : ∀ pc d, p.depthAt pc = some d → D pc = some d
  waiting : ∀ pc ∈ p.work, ∃ d, p.depthAt pc = some d
  highest : Passed t D p.maxStack

theorem Consistent.inside {t : Candidate} {D : Nat → Option Nat} (c : Consistent t D) {pc d : Nat}
    (found : D pc = some d) : pc < t.ops.size := by
  obtain ⟨op, atPc, _⟩ := c.obeys pc d found
  exact (Array.getElem?_eq_some_iff.1 atPc).1

theorem mergeAgrees {t : Candidate} {D : Nat → Option Nat} (c : Consistent t D) {p : Progress}
    (agrees : Agrees t D p) {pc depth : Nat} (right : D pc = some depth) :
    ∃ q, merge pc depth p = .ok q ∧ Agrees t D q := by
  have inside : pc < p.depths.size := by
    have := c.inside right
    have := agrees.size
    omega
  cases found : p.depthAt pc with
  | some d =>
    have same : d = depth := Option.some.inj ((agrees.same pc d found).symm.trans right)
    subst same
    refine ⟨p, ?_, agrees⟩
    unfold Progress.depthAt at found
    unfold merge
    simp [found]
  | none =>
    refine ⟨{ p with depths := p.depths.setIfInBounds pc (some depth), work := pc :: p.work }, ?_, ?_⟩
    · unfold Progress.depthAt at found
      unfold merge
      simp [found]
    · have table : ∀ other, ({ p with
          depths := p.depths.setIfInBounds pc (some depth), work := pc :: p.work } : Progress).depthAt other =
            if other = pc then some depth else p.depthAt other := by
        intro other
        change (p.depths.setIfInBounds pc (some depth)).getD other none = _
        rw [depthAtSet]
        simp [inside]
      refine ⟨by simpa using agrees.size, ?_, ?_, agrees.highest⟩
      · intro other d h
        rw [table] at h
        split at h
        · next is => rw [is, right]; exact h
        · exact agrees.same other d h
      · intro other member
        rw [table]
        split
        · exact ⟨depth, rfl⟩
        · next different =>
          rcases List.mem_cons.1 member with is | old
          · exact absurd is different
          · exact agrees.waiting other old

theorem mergeAllAgrees {t : Candidate} {D : Nat → Option Nat} (c : Consistent t D) {α : Type} (f : α → Nat)
    {depth : Nat} {xs : List α} (right : ∀ x ∈ xs, D (f x) = some depth) {p : Progress} (agrees : Agrees t D p) :
    ∃ q, xs.foldlM (fun p x => merge (f x) depth p) p = .ok q ∧ Agrees t D q := by
  induction xs generalizing p with
  | nil => exact ⟨p, rfl, agrees⟩
  | cons x xs ih =>
    obtain ⟨mid, first, between⟩ := mergeAgrees c agrees (right x List.mem_cons_self)
    obtain ⟨q, rest, last⟩ := ih (fun y member => right y (List.mem_cons_of_mem x member)) between
    refine ⟨q, ?_, last⟩
    rw [List.foldlM_cons, first]
    exact rest

theorem visitAgrees {t : Candidate} {D : Nat → Option Nat} (c : Consistent t D) {p : Progress} {pc d : Nat}
    (agrees : Agrees t D p) (found : p.depthAt pc = some d) : ∃ q, visit t pc p = .ok q ∧ Agrees t D q := by
  obtain ⟨op, atPc, checked, targets, falls⟩ := c.obeys pc d (agrees.same pc d found)
  have right := agrees.same pc d found
  have raised : Agrees t D { p with maxStack := max p.maxStack (max (after op d) d) } :=
    ⟨agrees.size, agrees.same, agrees.waiting,
      agrees.highest.max (.max ⟨pc, d, op, right, atPc, .inr rfl⟩ ⟨pc, d, op, right, atPc, .inl rfl⟩)⟩
  obtain ⟨mid, merged, between⟩ := mergeAllAgrees c t.position targets raised
  have last : ∃ q, (if op.fallsThrough then merge (pc + 1) (after op d) mid else .ok mid) = .ok q ∧
      Agrees t D q := by
    split
    · next falling => exact mergeAgrees c between (falls falling)
    · exact ⟨mid, rfl, between⟩
  obtain ⟨q, falling, whole⟩ := last
  refine ⟨q, ?_, whole⟩
  have depth : (p.depths.getD pc none).getD 0 = d := by
    change (p.depthAt pc).getD 0 = d
    rw [found]; rfl
  unfold visit
  simp only [atPc, depth, checked]
  change (op.targets.foldlM (fun p l => merge (t.position l) (after op d) p)
    { p with maxStack := max p.maxStack (max (after op d) d) } >>= _) = _
  rw [merged]
  exact falling

theorem roundAgrees {t : Candidate} {D : Nat → Option Nat} (c : Consistent t D) {p : Progress}
    {out : Except Rejection Progress} (agrees : Agrees t D p) (round : Round t p out) :
    ∃ q, out = .ok q ∧ Agrees t D q := by
  obtain ⟨before, pc, rest, waits, rfl⟩ := round
  have listed : ∀ other ∈ before ++ rest, other ∈ p.work := by
    intro other member
    rw [waits, List.mem_append, List.mem_cons]
    exact or_left_comm.1 (.inr (List.mem_append.1 member))
  obtain ⟨d, found⟩ := agrees.waiting pc (waits ▸ List.mem_append_right before List.mem_cons_self)
  have taken : Agrees t D { p with work := before ++ rest } :=
    ⟨agrees.size, agrees.same, fun other member => agrees.waiting other (listed other member), agrees.highest⟩
  exact visitAgrees c taken found

theorem runsAgrees {t : Candidate} {D : Nat → Option Nat} (c : Consistent t D) {p : Progress}
    {out : Except Rejection Progress} (agrees : Agrees t D p) (runs : Runs t p out) :
    ∃ q, out = .ok q ∧ Agrees t D q := by
  induction runs with
  | finished => exact ⟨_, rfl, agrees⟩
  | rejected round =>
    obtain ⟨_, ok, _⟩ := roundAgrees c agrees round
    contradiction
  | next round _ ih =>
    obtain ⟨_, ok, between⟩ := roundAgrees c agrees round
    cases ok
    exact ih between

theorem enteredAgrees {t : Candidate} {D : Nat → Option Nat} (c : Consistent t D) :
    ∃ p, entered t = .ok p ∧ Agrees t D p := by
  obtain ⟨op, atStart, _⟩ := c.obeys 0 0 c.start
  have fresh : Agrees t D ⟨Array.replicate (t.ops.size + 1) none, [], 0⟩ := by
    refine ⟨by simp, ?_, by simp, 0, 0, op, c.start, atStart, .inl rfl⟩
    intro pc d found
    simp only [Progress.depthAt, Array.getD_eq_getD_getElem?, Array.getElem?_replicate] at found
    split at found <;> contradiction
  obtain ⟨first, start, one⟩ := mergeAgrees c fresh c.start
  obtain ⟨second, handled, two⟩ := mergeAllAgrees c (fun h : Handler => t.position h.target) c.handler one
  refine ⟨second, ?_, two⟩
  unfold entered
  rw [start]
  exact handled

theorem Agrees.regions {t : Candidate} {D : Nat → Option Nat} {p : Progress} (c : Consistent t D)
    (agrees : Agrees t D p) : checkRegions t p = .ok () :=
  checkRegionsIff.2 fun h member d found => c.region h member d (agrees.same _ d found)

theorem settledOfConsistent {t : Candidate} {D : Nat → Option Nat} (c : Consistent t D) :
    ∃ p, settled t = .ok p ∧ ∀ pc d, p.depthAt pc = some d → D pc = some d := by
  obtain ⟨first, enters, begun⟩ := enteredAgrees c
  obtain ⟨last, explored, agrees⟩ := runsAgrees c begun (enteredRuns enters)
  refine ⟨last, ?_, agrees.same⟩
  rw [settledIs, enters]
  change (explore t (t.ops.size + 2) first >>= _) = _
  rw [explored]
  change (checkRegions t last >>= _) = _
  rw [agrees.regions c]
  rfl

end QueryMachine.Verify
