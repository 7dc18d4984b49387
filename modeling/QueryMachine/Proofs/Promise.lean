import QueryMachine.Promise

/-! What promises come to hold. Calls make promises, derive them from one another and settle them; every function
runs once, on the value of the parent, whichever way the calls come. -/
namespace QueryMachine.Promises

variable {κ α : Type}

/-! ### Histories -/

inductive Call (κ α : Type) where
  | new
  | derive (parent : Nat) (f : κ)
  | settle (i : Nat) (r : Except Fault α)

/-- The promises after some calls, and where each came from. A function carries the number of the promise it is
for; `ran` are the functions that ran, with their arguments, `settled` the calls that settled a promise. -/
structure History (κ α : Type) where
  promises : Promises (Nat × κ) α
  origins : List (Option (Nat × κ))
  ran : List (Nat × α)
  settled : List (Nat × Except Fault α)

def recorded (apply : κ → α → Except Fault α) (f : Nat × κ) (v : α) (ran : List (Nat × α)) :
    Except Fault α × List (Nat × α) :=
  (apply f.2 v, ran ++ [(f.1, v)])

namespace History

def empty : History κ α := ⟨.empty, [], [], []⟩

/-- There is nothing to derive from a promise that is not there. -/
def call (apply : κ → α → Except Fault α) (h : History κ α) : Call κ α → History κ α
  | .new => { h with promises := (h.promises.add .pending).1, origins := h.origins ++ [none] }
  | .derive i f =>
    if i < h.promises.size then
      let (_, promises, ran) := h.promises.derive (recorded apply) i (h.promises.size, f) h.ran
      { h with promises, ran, origins := h.origins ++ [some (i, f)] }
    else h
  | .settle i r =>
    let (first, promises, ran) := h.promises.settle (recorded apply) i r h.ran
    { h with promises, ran, settled := if first then h.settled ++ [(i, r)] else h.settled }

def of (apply : κ → α → Except Fault α) (calls : List (Call κ α)) : History κ α :=
  calls.foldl (call apply) empty

def value? (h : History κ α) (i : Nat) : Option α := (h.promises.result? i).bind (·.toOption)

def inherited (apply : κ → α → Except Fault α) (h : History κ α) (j : Nat) : Option (Except Fault α) :=
  h.origins[j]?.join.bind fun o => (h.promises.result? o.1).map (· >>= apply o.2)

end History

def parent? (origins : List (Option (Nat × κ))) (j : Nat) : Option Nat := origins[j]?.join.map (·.1)

def derivedFrom (origins : List (Option (Nat × κ))) (i : Nat) : List (Nat × κ) :=
  origins.zipIdx.filterMap fun e => e.1.bind fun o => if o.1 = i then some (e.2, o.2) else none

/-! ### Results -/

theorem resultIs {ps : Promises κ α} {i : Nat} {p : Promise κ α} (found : ps.table[i]? = some p) :
    ps.result? i = p.result := by
  unfold result?
  rw [found]
  rfl

theorem resultSet {ps : Promises κ α} {t : Nat} {w : List (κ × Nat)} (pending : ps.table[t]? = some ⟨none, w⟩)
    (r : Except Fault α) (i : Nat) : (⟨ps.table.setIfInBounds t (.settled r)⟩ : Promises κ α).result? i =
      if i = t then some r else ps.result? i := by
  unfold result?
  simp only [Array.getElem?_setIfInBounds]
  split
  · next same =>
    subst same
    rw [if_pos (Array.getElem?_eq_some_iff.1 pending).1, if_pos rfl]
    rfl
  · next other => rw [if_neg fun is => other is.symm]

theorem resultStays {ps : Promises κ α} {i t : Nat} {r : Except Fault α} (known : ps.result? i = some r)
    {w : List (κ × Nat)} (pending : ps.table[t]? = some ⟨none, w⟩) (r' : Except Fault α) :
    (⟨ps.table.setIfInBounds t (.settled r')⟩ : Promises κ α).result? i = some r := by
  rw [resultSet pending, if_neg]
  · exact known
  · rintro rfl
    cases known.symm.trans (resultIs pending)

theorem resultPush {ps : Promises κ α} {p : Promise κ α} {i : Nat} :
    (ps.add p).1.result? i = if i = ps.size then p.result else ps.result? i := by
  unfold result? add size
  simp only [Array.getElem?_push]
  split <;> rfl

theorem heldPush {ps : Promises κ α} {p : Promise κ α} {i : Nat} (low : i < ps.size) :
    (ps.table.push p)[i]? = ps.table[i]? := by
  have other : i ≠ ps.table.size := Nat.ne_of_lt low
  rw [Array.getElem?_push, if_neg other]

theorem resultHeld {ps : Promises κ α} {t : Nat} {w v : List (κ × Nat)} (pending : ps.table[t]? = some ⟨none, w⟩)
    (i : Nat) : (⟨ps.table.setIfInBounds t ⟨none, v⟩⟩ : Promises κ α).result? i = ps.result? i := by
  unfold result?
  simp only [Array.getElem?_setIfInBounds]
  split
  · next same =>
    subst same
    rw [if_pos (Array.getElem?_eq_some_iff.1 pending).1, pending]
    rfl
  · rfl

theorem pendingIs {ps : Promises κ α} {i : Nat} (low : i < ps.size) (unknown : ps.result? i = none) :
    ∃ w, ps.table[i]? = some ⟨none, w⟩ := by
  have found : ps.table[i]? = some ps.table[i] := Array.getElem?_eq_getElem low
  rw [resultIs found] at unknown
  exact ⟨ps.table[i].waiting, found.trans (by rw [← unknown])⟩

theorem resultBeyond {ps : Promises κ α} {i : Nat} {r : Except Fault α} (found : ps.result? i = some r) :
    i < ps.size := by
  unfold result? at found
  obtain ⟨_, atPc, _⟩ := Option.bind_eq_some_iff.1 found
  exact (Array.getElem?_eq_some_iff.1 atPc).1

/-! ### Origins -/

section

variable {origins : List (Option (Nat × κ))} {i j : Nat} {f : κ}

theorem memDerived : (j, f) ∈ derivedFrom origins i ↔ origins[j]? = some (some (i, f)) := by
  unfold derivedFrom
  rw [List.mem_filterMap]
  constructor
  · rintro ⟨⟨o, n⟩, member, is⟩
    obtain ⟨⟨p, g⟩, rfl, is⟩ := Option.bind_eq_some_iff.1 is
    simp only [Option.ite_none_right_eq_some, Option.some.injEq, Prod.mk.injEq] at is
    obtain ⟨rfl, rfl, rfl⟩ := is
    exact List.mem_zipIdx_iff_getElem?.1 member
  · intro found
    exact ⟨(some (i, f), j), List.mem_zipIdx_iff_getElem?.2 found, by simp⟩

theorem derivedAppend (o : Option (Nat × κ)) : derivedFrom (origins ++ [o]) i =
    derivedFrom origins i ++ (o.bind fun o => if o.1 = i then some (origins.length, o.2) else none).toList := by
  unfold derivedFrom
  rw [List.zipIdx_append, List.filterMap_append]
  congr 1
  cases o with
  | none => rfl
  | some k =>
    by_cases same : k.1 = i <;> simp [same]

theorem derivedNone (older : ∀ (j i : Nat) f, origins[j]? = some (some (i, f)) → i < j)
    (beyond : origins.length ≤ i) : derivedFrom origins i = [] := by
  refine List.eq_nil_iff_forall_not_mem.2 ?_
  rintro ⟨j, f⟩ member
  have found := memDerived.1 member
  have high := (List.getElem?_eq_some_iff.1 found).1
  have low := older j i f found
  omega

theorem parentIs (found : origins[j]? = some (some (i, f))) : parent? origins j = some i := by
  unfold parent?
  rw [found]
  rfl

end

/-! ### What has been passed on -/

def argument (e : (Nat × κ) × Except Fault α) : Option (Nat × α) := e.2.toOption.map (e.1.1, ·)

/-- Every promise with a result has passed it on to the promises derived from it, in order; the others have passed
on nothing. -/
def Given (origins : List (Option (Nat × κ))) (result : Nat → Option (Except Fault α))
    (passed : List ((Nat × κ) × Except Fault α)) : Prop :=
  ∀ i, passed.filter (fun e => parent? origins e.1.1 = some i) =
    (result i).elim [] fun r => (derivedFrom origins i).map (·, r)

section

variable {origins : List (Option (Nat × κ))} {result result' : Nat → Option (Except Fault α)}
  {before after passed : List ((Nat × κ) × Except Fault α)}

theorem Given.settle (given : Given origins result (before ++ after)) {t : Nat} {r : Except Fault α}
    (pending : result t = none) (settles : ∀ i, result' i = if i = t then some r else result i) :
    Given origins result' (before ++ ((derivedFrom origins t).map (·, r) ++ after)) := by
  intro i
  have whole := given i
  have parents : ∀ e ∈ (derivedFrom origins t).map (·, r), parent? origins e.1.1 = some t := by
    intro e member
    obtain ⟨k, derived, rfl⟩ := List.mem_map.1 member
    exact parentIs (memDerived.1 derived)
  rw [List.filter_append] at whole
  rw [List.filter_append, List.filter_append, settles]
  by_cases same : i = t
  · subst same
    rw [pending, Option.elim_none, List.append_eq_nil_iff] at whole
    rw [whole.1, whole.2, if_pos rfl, List.nil_append, List.append_nil]
    exact List.filter_eq_self.2 fun e member => decide_eq_true (parents e member)
  · have none : ((derivedFrom origins t).map (·, r)).filter (fun e => parent? origins e.1.1 = some i) = [] := by
      refine List.filter_eq_nil_iff.2 ?_
      intro e member is
      exact same (Option.some.inj ((of_decide_eq_true is).symm.trans (parents e member)))
    rw [none, if_neg same, List.nil_append]
    exact whole

theorem Given.derive (given : Given origins result passed) (known : ∀ e ∈ passed, e.1.1 < origins.length)
    (older : ∀ (j i : Nat) f, origins[j]? = some (some (i, f)) → i < j) {o : Option (Nat × κ)}
    (parent : ∀ k, o = some k → k.1 < origins.length) (same : ∀ i < origins.length, result' i = result i) :
    Given (origins ++ [o]) result'
      (passed ++ (o.bind fun k => (result k.1).map fun r => ((origins.length, k.2), r)).toList) := by
  intro i
  have parents : ∀ e ∈ passed, parent? (origins ++ [o]) e.1.1 = parent? origins e.1.1 := by
    intro e member
    unfold parent?
    rw [List.getElem?_append_left (known e member)]
  have left : passed.filter (fun e => parent? (origins ++ [o]) e.1.1 = some i) =
      (result i).elim [] fun r => (derivedFrom origins i).map (·, r) := by
    rw [← given i]
    exact List.filter_congr fun e member => by rw [parents e member]
  have last : parent? (origins ++ [o]) origins.length = o.map (·.1) := by
    unfold parent?
    rw [List.getElem?_concat_length]
    rfl
  have right : (o.bind fun k => (result k.1).map fun r => ((origins.length, k.2), r)).toList.filter
      (fun e => parent? (origins ++ [o]) e.1.1 = some i) = (result i).elim [] fun r =>
        (o.bind fun k => if k.1 = i then some (origins.length, k.2) else none).toList.map (·, r) := by
    cases o with
    | none => cases result i <;> rfl
    | some k =>
      by_cases here : k.1 = i
      · subst here
        cases known : result k.1 <;> simp [known, last]
      · cases known : result k.1 <;> cases result i <;> simp [known, last, here]
  rw [List.filter_append, left, right, derivedAppend]
  by_cases low : i < origins.length
  · rw [same i low]
    cases result i with
    | none => rfl
    | some r => exact List.map_append.symm
  · have nothing := derivedNone older (Nat.le_of_not_lt low)
    have none : (o.bind fun k => if k.1 = i then some (origins.length, k.2) else none) = none := by
      refine Option.bind_eq_none_iff.2 ?_
      intro k is
      have other : ¬k.1 = i := fun here => low (here ▸ parent k is)
      exact if_neg other
    rw [nothing, none]
    cases result i <;> cases result' i <;> rfl

end

/-! ### The invariant -/

variable {apply : κ → α → Except Fault α} {h : History κ α}
  {passed waiting before after : List ((Nat × κ) × Except Fault α)}

structure Sound (apply : κ → α → Except Fault α) (h : History κ α)
    (passed waiting : List ((Nat × κ) × Except Fault α)) : Prop where
  size : h.origins.length = h.promises.size
  older : ∀ (j i : Nat) f, h.origins[j]? = some (some (i, f)) → i < j
  waits : ∀ i w, h.promises.table[i]? = some ⟨none, w⟩ → w = (derivedFrom h.origins i).map fun k => (k, k.1)
  given : Given h.origins h.promises.result? (passed ++ waiting)
  derived : ∀ e ∈ passed ++ waiting, (parent? h.origins e.1.1).isSome
  arrived : ∀ e ∈ passed, (h.promises.result? e.1.1).isSome
  ran : h.ran = passed.filterMap argument
  settled : ∀ j r, h.settled.lookup j = some r → h.promises.result? j = some r
  inherited : ∀ j r, h.settled.lookup j = none → h.promises.result? j = some r → h.inherited apply j = some r

theorem Sound.origin (sound : Sound apply h passed waiting) {e : (Nat × κ) × Except Fault α}
    (member : e ∈ passed ++ waiting) :
    ∃ i, h.origins[e.1.1]? = some (some (i, e.1.2)) ∧ h.promises.result? i = some e.2 := by
  obtain ⟨i, is⟩ := Option.isSome_iff_exists.1 (sound.derived e member)
  have inside : e ∈ (passed ++ waiting).filter fun e => parent? h.origins e.1.1 = some i :=
    List.mem_filter.2 ⟨member, decide_eq_true is⟩
  rw [sound.given i] at inside
  cases known : h.promises.result? i with
  | none => simp [known] at inside
  | some r =>
    rw [known] at inside
    obtain ⟨k, derived, rfl⟩ := List.mem_map.1 inside
    exact ⟨i, memDerived.1 derived, known⟩

theorem inheritedIs {i j : Nat} {f : κ} {r : Except Fault α} (origin : h.origins[j]? = some (some (i, f)))
    (known : h.promises.result? i = some r) : h.inherited apply j = some (r >>= apply f) := by
  unfold History.inherited
  rw [origin]
  simp [known]

theorem inheritedSome {j : Nat} {r : Except Fault α} (is : h.inherited apply j = some r) :
    ∃ i f s, h.origins[j]? = some (some (i, f)) ∧ h.promises.result? i = some s ∧ r = s >>= apply f := by
  unfold History.inherited at is
  obtain ⟨⟨i, f⟩, origin, is⟩ := Option.bind_eq_some_iff.1 is
  obtain ⟨s, known, rfl⟩ := Option.map_eq_some_iff.1 is
  exact ⟨i, f, s, Option.join_eq_some_iff.1 origin, known, rfl⟩

theorem inheritedKeeps {h' : History κ α} (kept : ∀ i r, h.promises.result? i = some r → h'.promises.result? i = some r)
    (same : ∀ j : Nat, (h.origins[j]?).isSome → h'.origins[j]? = h.origins[j]?) {j : Nat} {r : Except Fault α}
    (is : h.inherited apply j = some r) : h'.inherited apply j = some r := by
  obtain ⟨i, f, s, origin, known, rfl⟩ := inheritedSome is
  exact inheritedIs ((same j (by rw [origin]; rfl)).trans origin) (kept i s known)

theorem Sound.settle (sound : Sound apply h passed waiting) {t : Nat} {w : List ((Nat × κ) × Nat)}
    {r : Except Fault α} (pending : h.promises.table[t]? = some ⟨none, w⟩) (settled : List (Nat × Except Fault α))
    (split : passed ++ waiting = before ++ after) (arrived : ∀ e ∈ before, e.1.1 = t ∨ (h.promises.result? e.1.1).isSome)
    (own : ∀ j s, settled.lookup j = some s → j = t ∧ s = r ∨ h.settled.lookup j = some s)
    (inherits : ∀ j, settled.lookup j = none →
      h.settled.lookup j = none ∧ (j = t → h.inherited apply t = some r)) :
    Sound apply ⟨⟨h.promises.table.setIfInBounds t (.settled r)⟩, h.origins, before.filterMap argument, settled⟩
      before ((derivedFrom h.origins t).map (·, r) ++ after) := by
  have unknown : h.promises.result? t = none := resultIs pending
  have results := resultSet pending r
  have kept : ∀ i s, h.promises.result? i = some s →
      (⟨h.promises.table.setIfInBounds t (.settled r)⟩ : Promises (Nat × κ) α).result? i = some s :=
    fun _ _ known => resultStays known pending r
  have inherited : ∀ j s, h.inherited apply j = some s → History.inherited apply
      ⟨⟨h.promises.table.setIfInBounds t (.settled r)⟩, h.origins, before.filterMap argument, settled⟩ j = some s := by
    intro j s is
    refine inheritedKeeps (h := h) kept ?_ is
    exact fun _ _ => rfl
  refine ⟨?_, sound.older, ?_, ?_, ?_, ?_, rfl, ?_, ?_⟩
  · exact sound.size.trans (Array.size_setIfInBounds).symm
  · intro i v found
    simp only [Array.getElem?_setIfInBounds] at found
    split at found
    · split at found
      · cases found
      · contradiction
    · exact sound.waits i v found
  · exact (split ▸ sound.given).settle unknown results
  · intro e member
    rw [List.mem_append, List.mem_append] at member
    rcases member with early | opened | late
    · exact sound.derived e (split ▸ List.mem_append_left _ early)
    · obtain ⟨k, derived, rfl⟩ := List.mem_map.1 opened
      rw [parentIs (memDerived.1 derived)]
      rfl
    · exact sound.derived e (split ▸ List.mem_append_right _ late)
  · intro e member
    rw [results]
    split
    · rfl
    · next other => exact (arrived e member).resolve_left other
  · intro j s is
    rw [results]
    rcases own j s is with ⟨rfl, rfl⟩ | old
    · rw [if_pos rfl]
    · exact results j ▸ kept j s (sound.settled j s old)
  · intro j s is known
    obtain ⟨old, new⟩ := inherits j is
    rw [results] at known
    split at known
    · next same =>
      cases known
      exact inherited j r (same ▸ new same)
    · exact inherited j s (sound.inherited j s old known)

theorem Sound.late (sound : Sound apply h passed waiting) {e : (Nat × κ) × Except Fault α}
    (head : waiting = e :: after) (there : (h.promises.result? e.1.1).isSome) :
    Sound apply { h with ran := (passed ++ [e]).filterMap argument } (passed ++ [e]) after := by
  have split : passed ++ [e] ++ after = passed ++ waiting := by rw [head, List.append_assoc]; rfl
  refine ⟨sound.size, sound.older, sound.waits, split ▸ sound.given, split ▸ sound.derived, ?_, rfl,
    sound.settled, sound.inherited⟩
  intro d member
  rcases List.mem_append.1 member with old | new
  · exact sound.arrived d old
  · exact List.mem_singleton.1 new ▸ there

/-! ### Deliveries -/

def toward (e : (Nat × κ) × Except Fault α) : Delivery (Nat × κ) α := ⟨some e.1, e.1.1, e.2⟩

theorem arriveIs (e : (Nat × κ) × Except Fault α) (ran : List (Nat × α)) :
    (toward e).arrive (recorded apply) ran = (e.2 >>= apply e.1.2, ran ++ (argument e).toList) := by
  obtain ⟨k, r | v⟩ := e
  · exact congrArg (Prod.mk _) (List.append_nil ran).symm
  · rfl

theorem backlogSettle {ps : Promises κ α} {t : Nat} {w : List (κ × Nat)} (pending : ps.table[t]? = some ⟨none, w⟩)
    (r : Except Fault α) :
    (⟨ps.table.setIfInBounds t (.settled r)⟩ : Promises κ α).backlog + w.length = ps.backlog := by
  have listed : ∀ (ps : List (Promise κ α)) (t : Nat), ps[t]? = some ⟨none, w⟩ →
      (ps.set t (.settled r)).foldr (fun p n => p.waiting.length + n) 0 + w.length =
        ps.foldr (fun p n => p.waiting.length + n) 0 := by
    intro ps
    induction ps with
    | nil => simp
    | cons p ps ih =>
      intro t found
      cases t with
      | zero =>
        cases found
        simp [Promise.settled, Nat.add_comm]
      | succ t =>
        have rest := ih t found
        simp only [List.set_cons_succ, List.foldr_cons]
        omega
  unfold backlog
  rw [Array.toList_setIfInBounds]
  exact listed ps.table.toList t (by simpa using pending)

section

variable {σ : Type} {run : κ → α → σ → Except Fault α × σ} {fuel : Nat} {d : Delivery κ α} {rest : List (Delivery κ α)}
  {ps : Promises κ α} {s : σ}

theorem deliverPending {w : List (κ × Nat)} (pending : ps.table[d.target]? = some ⟨none, w⟩) :
    deliver run (fuel + 1) (d :: rest) ps s =
      deliver run fuel ((w.map fun f => ⟨some f.1, f.2, (d.arrive run s).1⟩) ++ rest)
        ⟨ps.table.setIfInBounds d.target (.settled (d.arrive run s).1)⟩ (d.arrive run s).2 := by
  rw [deliver, pending]

theorem deliverPast (past : ∀ w, ps.table[d.target]? ≠ some ⟨none, w⟩) :
    deliver run (fuel + 1) (d :: rest) ps s = deliver run fuel rest ps (d.arrive run s).2 := by
  rw [deliver]
  cases found : ps.table[d.target]? with
  | none => rfl
  | some p =>
    obtain ⟨result, w⟩ := p
    cases result with
    | none => exact absurd found (past w)
    | some _ => rfl

end

theorem Sound.opened (sound : Sound apply h passed waiting) {t : Nat} {w : List ((Nat × κ) × Nat)}
    (pending : h.promises.table[t]? = some ⟨none, w⟩) (r : Except Fault α) :
    (w.map fun f => ⟨some f.1, f.2, r⟩) = ((derivedFrom h.origins t).map (·, r)).map toward := by
  rw [sound.waits t w pending, List.map_map, List.map_map]
  rfl

theorem Sound.backlog (sound : Sound apply h passed waiting) {t : Nat} {w : List ((Nat × κ) × Nat)}
    (pending : h.promises.table[t]? = some ⟨none, w⟩) (r : Except Fault α) :
    ((derivedFrom h.origins t).map (·, r)).length +
      (⟨h.promises.table.setIfInBounds t (.settled r)⟩ : Promises (Nat × κ) α).backlog = h.promises.backlog := by
  have fewer := backlogSettle pending r
  rw [sound.waits t w pending, List.length_map] at fewer
  rw [List.length_map]
  omega

theorem deliverSound {fuel : Nat} (sound : Sound apply h passed waiting)
    (enough : waiting.length + h.promises.backlog ≤ fuel) :
    ∃ passed', Sound apply { h with
      promises := (deliver (recorded apply) fuel (waiting.map toward) h.promises h.ran).1
      ran := (deliver (recorded apply) fuel (waiting.map toward) h.promises h.ran).2 } passed' [] := by
  induction fuel generalizing h passed waiting with
  | zero =>
    have none : waiting = [] := List.eq_nil_of_length_eq_zero (by omega)
    subst none
    exact ⟨passed, sound⟩
  | succ fuel ih =>
    cases waiting with
    | nil => exact ⟨passed, sound⟩
    | cons e rest =>
      obtain ⟨i, origin, known⟩ := sound.origin (List.mem_append_right passed List.mem_cons_self)
      have more : ((toward e).arrive (recorded apply) h.ran).2 = (passed ++ [e]).filterMap argument := by
        rw [arriveIs, sound.ran, List.filterMap_append]
        congr 1
      have value : ((toward e).arrive (recorded apply) h.ran).1 = e.2 >>= apply e.1.2 := by rw [arriveIs]
      rw [List.map_cons]
      rw [List.length_cons] at enough
      by_cases there : (h.promises.result? e.1.1).isSome
      · have few : rest.length + h.promises.backlog ≤ fuel := by omega
        have past : ∀ w, h.promises.table[e.1.1]? ≠ some ⟨none, w⟩ := by
          intro w pending
          rw [resultIs pending] at there
          contradiction
        rw [deliverPast past, more]
        exact ih (sound.late rfl there) few
      · have low : e.1.1 < h.promises.table.size := by
          have := (List.getElem?_eq_some_iff.1 origin).1
          have := sound.size
          unfold size at this
          omega
        obtain ⟨w, pending⟩ := pendingIs low (Option.not_isSome_iff_eq_none.1 there)
        have arrived : ∀ d ∈ passed ++ [e], d.1.1 = e.1.1 ∨ (h.promises.result? d.1.1).isSome := by
          intro d member
          rcases List.mem_append.1 member with old | new
          · exact .inr (sound.arrived d old)
          · exact .inl (List.mem_singleton.1 new ▸ rfl)
        have next := sound.settle pending h.settled (by rw [List.append_assoc]; rfl) arrived
          (fun _ _ is => .inr is) (fun _ is => ⟨is, fun _ => inheritedIs origin known⟩)
        have fewer := sound.backlog pending (e.2 >>= apply e.1.2)
        have few : ((derivedFrom h.origins e.1.1).map (·, e.2 >>= apply e.1.2) ++ rest).length +
            (⟨h.promises.table.setIfInBounds e.1.1 (.settled (e.2 >>= apply e.1.2))⟩ :
              Promises (Nat × κ) α).backlog ≤ fuel := by
          rw [List.length_append]
          omega
        rw [deliverPending pending, more, value]
        have queue : (w.map fun f => ⟨some f.1, f.2, e.2 >>= apply e.1.2⟩) ++ rest.map toward =
            ((derivedFrom h.origins e.1.1).map (·, e.2 >>= apply e.1.2) ++ rest).map toward := by
          rw [sound.opened pending, List.map_append]
        rw [queue]
        exact ih next few

/-! ### Calls -/

theorem Sound.known (sound : Sound apply h passed waiting) : ∀ e ∈ passed, e.1.1 < h.origins.length := by
  intro e member
  obtain ⟨_, origin, _⟩ := sound.origin (List.mem_append_left waiting member)
  exact (List.getElem?_eq_some_iff.1 origin).1

theorem Sound.made (sound : Sound apply h passed []) (o : Option (Nat × κ)) (table : Array (Promise (Nat × κ) α))
    (parent : ∀ k, o = some k → k.1 < h.origins.length) (size : table.size = h.promises.size + 1)
    (results : ∀ i, (⟨table⟩ : Promises (Nat × κ) α).result? i = if i = h.promises.size then
      o.bind fun k => (h.promises.result? k.1).map (· >>= apply k.2) else h.promises.result? i)
    (waits : ∀ i w, table[i]? = some ⟨none, w⟩ → w = (derivedFrom (h.origins ++ [o]) i).map fun k => (k, k.1))
    (more : List ((Nat × κ) × Except Fault α))
    (extra : more = (o.bind fun k => (h.promises.result? k.1).map fun r => ((h.origins.length, k.2), r)).toList) :
    Sound apply ⟨⟨table⟩, h.origins ++ [o], (passed ++ more).filterMap argument, h.settled⟩ (passed ++ more) [] := by
  have old : ∀ j : Nat, (h.origins[j]?).isSome → (h.origins ++ [o])[j]? = h.origins[j]? := by
    intro j is
    obtain ⟨x, found⟩ := Option.isSome_iff_exists.1 is
    exact List.getElem?_append_left (List.getElem?_eq_some_iff.1 found).1
  have last : (h.origins ++ [o])[h.origins.length]? = some o := List.getElem?_concat_length
  have kept : ∀ i r, h.promises.result? i = some r → (⟨table⟩ : Promises (Nat × κ) α).result? i = some r := by
    intro i r known
    rw [results, if_neg (Nat.ne_of_lt (resultBeyond known))]
    exact known
  have extraIs : ∀ e ∈ more, ∃ k r, o = some k ∧ h.promises.result? k.1 = some r ∧ e = ((h.origins.length, k.2), r) := by
    intro e member
    rw [extra, Option.mem_toList] at member
    obtain ⟨k, is, made⟩ := Option.bind_eq_some_iff.1 member
    obtain ⟨r, known, same⟩ := Option.map_eq_some_iff.1 made
    exact ⟨k, r, is, known, same.symm⟩
  refine ⟨?_, ?_, waits, ?_, ?_, ?_, rfl, ?_, ?_⟩
  · rw [List.length_append, sound.size]
    exact size.symm
  · intro j i f found
    by_cases low : j < h.origins.length
    · exact sound.older j i f ((List.getElem?_append_left low).symm.trans found)
    · have here : j = h.origins.length := by
        have := (List.getElem?_eq_some_iff.1 found).1
        rw [List.length_append, List.length_singleton] at this
        omega
      subst here
      exact parent (i, f) (Option.some.inj (last.symm.trans found))
  · rw [List.append_nil, extra]
    have given := sound.given
    rw [List.append_nil] at given
    refine given.derive sound.known sound.older parent ?_
    intro i low
    rw [results, if_neg (Nat.ne_of_lt (sound.size ▸ low))]
  · intro e member
    rw [List.append_nil] at member
    rcases List.mem_append.1 member with early | new
    · obtain ⟨i, origin, _⟩ := sound.origin (List.mem_append_left [] early)
      rw [parentIs ((old _ (by rw [origin]; rfl)).trans origin)]
      rfl
    · obtain ⟨k, r, rfl, _, rfl⟩ := extraIs e new
      rw [parentIs last]
      rfl
  · intro e member
    rcases List.mem_append.1 member with early | new
    · obtain ⟨r, known⟩ := Option.isSome_iff_exists.1 (sound.arrived e early)
      rw [kept _ r known]
      rfl
    · obtain ⟨k, r, rfl, known, rfl⟩ := extraIs e new
      rw [results, if_pos sound.size]
      simp [known]
  · intro j r is
    exact kept j r (sound.settled j r is)
  · intro j r is known
    rw [results] at known
    split at known
    · next here =>
      obtain ⟨k, rfl, made⟩ := Option.bind_eq_some_iff.1 known
      obtain ⟨s, parentKnown, rfl⟩ := Option.map_eq_some_iff.1 made
      rw [here, ← sound.size]
      exact inheritedIs last (kept _ s parentKnown)
    · exact inheritedKeeps (h := h) kept old (sound.inherited j r is known)

section

variable {σ : Type} {run : κ → α → σ → Except Fault α × σ} {ps : Promises κ α} {i : Nat} {f : κ} {s : σ}

theorem derivePending {w : List (κ × Nat)} (pending : ps.table[i]? = some ⟨none, w⟩) : ps.derive run i f s =
    (ps.size, ⟨(ps.table.push .pending).setIfInBounds i ⟨none, w ++ [(f, ps.size)]⟩⟩, s) := by
  unfold derive
  rw [pending]
  rfl

theorem deriveSettled {w : List (κ × Nat)} {r : Except Fault α} (settled : ps.table[i]? = some ⟨some r, w⟩) :
    ps.derive run i f s = (ps.size, (ps.add (.settled (Delivery.arrive run ⟨some f, ps.size, r⟩ s).1)).1,
      (Delivery.arrive run ⟨some f, ps.size, r⟩ s).2) := by
  unfold derive
  rw [settled]
  rfl

theorem deriveResult {j : Nat} (low : i < ps.size) : (ps.derive run i f s).2.1.result? j =
    if j = ps.size then (ps.result? i).map fun r => (Delivery.arrive run ⟨some f, ps.size, r⟩ s).1
    else ps.result? j := by
  obtain ⟨⟨result, w⟩, found⟩ : ∃ p, ps.table[i]? = some p := ⟨_, Array.getElem?_eq_getElem low⟩
  rw [resultIs found]
  cases result with
  | none =>
    have pushed : (ps.add .pending).1.table[i]? = some ⟨none, w⟩ := (heldPush low).trans found
    rw [derivePending found]
    exact (resultHeld pushed j).trans resultPush
  | some r =>
    rw [deriveSettled found]
    exact resultPush

theorem settlePending {w : List (κ × Nat)} {r : Except Fault α} (pending : ps.table[i]? = some ⟨none, w⟩) :
    ps.settle run i r s = (true, deliver run ps.backlog (w.map fun f => ⟨some f.1, f.2, r⟩)
      ⟨ps.table.setIfInBounds i (.settled r)⟩ s) := by
  unfold settle
  simp only [pending]
  rw [deliverPending (d := ⟨none, i, r⟩) pending, List.append_nil]
  rfl

theorem settleSettled {r r' : Except Fault α} (known : ps.result? i = some r) :
    ps.settle run i r' s = (false, ps, s) := by
  unfold result? at known
  obtain ⟨⟨result, w⟩, found, rfl⟩ := Option.bind_eq_some_iff.1 known
  unfold settle
  rw [found]

theorem settleBeyond {r : Except Fault α} (beyond : ps.size ≤ i) : ps.settle run i r s = (false, ps, s) := by
  unfold settle
  rw [Array.getElem?_eq_none beyond]

end

theorem Sound.waitsPush (sound : Sound apply h passed waiting) {o : Option (Nat × κ)} {p : Promise (Nat × κ) α} {i : Nat}
    {w : List ((Nat × κ) × Nat)} (empty : p.waiting = []) (other : ∀ k, o = some k → k.1 ≠ i)
    (found : (h.promises.table.push p)[i]? = some ⟨none, w⟩) :
    w = (derivedFrom (h.origins ++ [o]) i).map fun k => (k, k.1) := by
  have nothing : (o.bind fun k => if k.1 = i then some (h.origins.length, k.2) else none) = none :=
    Option.bind_eq_none_iff.2 fun k is => if_neg (other k is)
  rw [derivedAppend, nothing, Option.toList_none, List.append_nil]
  rw [Array.getElem?_push] at found
  split at found
  · next here =>
    cases found
    have beyond : h.origins.length ≤ i := Nat.le_of_eq (sound.size.trans here.symm)
    rw [derivedNone sound.older beyond]
    exact empty
  · exact sound.waits i w found

theorem newSound (sound : Sound apply h passed []) : Sound apply (h.call apply .new) passed [] := by
  have made := sound.made none (h.promises.table.push .pending) (by simp)
    (Array.size_push Promise.pending) (fun _ => resultPush) (fun i w => sound.waitsPush rfl (by simp)) [] rfl
  rw [List.append_nil, ← sound.ran] at made
  exact made

theorem callDerive {i : Nat} {f : κ} (low : i < h.promises.size) : h.call apply (.derive i f) =
    ⟨(h.promises.derive (recorded apply) i (h.promises.size, f) h.ran).2.1, h.origins ++ [some (i, f)],
      (h.promises.derive (recorded apply) i (h.promises.size, f) h.ran).2.2, h.settled⟩ :=
  if_pos low

theorem deriveSound (sound : Sound apply h passed []) (i : Nat) (f : κ) :
    ∃ passed', Sound apply (h.call apply (.derive i f)) passed' [] := by
  by_cases low : i < h.promises.size
  · have inside : i < h.origins.length := sound.size ▸ low
    have parent : ∀ k, some (i, f) = some k → k.1 < h.origins.length := by
      rintro k ⟨⟩
      exact inside
    rw [callDerive low]
    obtain ⟨⟨result, w⟩, found⟩ : ∃ p, h.promises.table[i]? = some p := ⟨_, Array.getElem?_eq_getElem low⟩
    cases result with
    | none =>
      have unknown : h.promises.result? i = none := resultIs found
      have made := sound.made (some (i, f)) ((h.promises.table.push .pending).setIfInBounds i
        ⟨none, w ++ [((h.promises.size, f), h.promises.size)]⟩) parent ?_ ?_ ?_ [] (by simp [unknown])
      · rw [List.append_nil, ← sound.ran] at made
        rw [derivePending found]
        exact ⟨passed, made⟩
      · rw [Array.size_setIfInBounds]
        exact Array.size_push _
      · intro j
        have results : (h.promises.derive (recorded apply) i (h.promises.size, f) h.ran).2.1.result? j = _ :=
          deriveResult low
        rw [derivePending found] at results
        refine results.trans ?_
        simp [unknown]
      · intro j v waits
        rw [Array.getElem?_setIfInBounds] at waits
        split at waits
        · next here =>
          subst here
          split at waits
          · cases waits
            rw [sound.waits _ _ found, derivedAppend, ← sound.size]
            simp
          · contradiction
        · next other => exact sound.waitsPush rfl (by rintro k ⟨⟩; exact other) waits
    | some r =>
      have known : h.promises.result? i = some r := resultIs found
      have made := sound.made (some (i, f)) (h.promises.table.push (.settled (r >>= apply f))) parent
        (Array.size_push _) ?_ ?_ [((h.origins.length, f), r)] (by simp [known])
      · rw [deriveSettled found]
        have same : (passed ++ [((h.origins.length, f), r)]).filterMap argument =
            h.ran ++ (argument ((h.promises.size, f), r)).toList := by
          rw [List.filterMap_append, ← sound.ran, sound.size]
          rfl
        rw [same] at made
        have arrives : Delivery.arrive (recorded apply) ⟨some (h.promises.size, f), h.promises.size, r⟩ h.ran = _ :=
          arriveIs ((h.promises.size, f), r) h.ran
        rw [arrives]
        exact ⟨_, made⟩
      · intro j
        refine resultPush.trans ?_
        simp [known, Promise.settled]
      · intro j v waits
        refine sound.waitsPush rfl ?_ waits
        rintro k ⟨⟩ rfl
        rw [heldPush low, found] at waits
        cases waits
  · have nothing : h.call apply (.derive i f) = h := if_neg low
    rw [nothing]
    exact ⟨passed, sound⟩

theorem settleSound (sound : Sound apply h passed []) (i : Nat) (r : Except Fault α) :
    ∃ passed', Sound apply (h.call apply (.settle i r)) passed' [] := by
  have is : h.call apply (.settle i r) = ⟨(h.promises.settle (recorded apply) i r h.ran).2.1, h.origins,
      (h.promises.settle (recorded apply) i r h.ran).2.2,
      if (h.promises.settle (recorded apply) i r h.ran).1 then h.settled ++ [(i, r)] else h.settled⟩ := rfl
  rw [is]
  cases known : h.promises.result? i with
  | some s =>
    rw [settleSettled known]
    exact ⟨passed, sound⟩
  | none =>
    by_cases low : i < h.promises.size
    · obtain ⟨w, pending⟩ := pendingIs low known
      have fresh : h.settled.lookup i = none := by
        refine Option.eq_none_iff_forall_ne_some.2 ?_
        intro s is
        cases known.symm.trans (sound.settled i s is)
      have found : ∀ j, (h.settled ++ [(i, r)]).lookup j = if j = i then some r else h.settled.lookup j := by
        intro j
        rw [List.lookup_append]
        by_cases same : j = i
        · subst same
          simp [fresh]
        · have other : (j == i) = false := beq_false_of_ne same
          simp [same, List.lookup_cons, other]
      have next := sound.settle (r := r) pending (h.settled ++ [(i, r)]) rfl
        (fun e member => .inr (sound.arrived e member)) ?_ ?_
      · rw [List.append_nil] at next
        have done := deliverSound next (Nat.le_of_eq (sound.backlog pending r))
        rw [← sound.opened pending, ← sound.ran] at done
        rw [settlePending pending, if_pos rfl]
        exact done
      · intro j s is
        rw [found] at is
        split at is
        · next same => exact .inl ⟨same, (Option.some.inj is).symm⟩
        · exact .inr is
      · intro j is
        rw [found] at is
        split at is
        · contradiction
        · next other => exact ⟨is, fun same => absurd same other⟩
    · rw [settleBeyond (Nat.le_of_not_lt low)]
      exact ⟨passed, sound⟩

theorem callSound (sound : Sound apply h passed []) (c : Call κ α) : ∃ passed', Sound apply (h.call apply c) passed' [] := by
  cases c with
  | new => exact ⟨passed, newSound sound⟩
  | derive i f => exact deriveSound sound i f
  | settle i r => exact settleSound sound i r

theorem callsSound (sound : Sound apply h passed []) (calls : List (Call κ α)) :
    ∃ passed', Sound apply (calls.foldl (History.call apply) h) passed' [] := by
  induction calls generalizing h passed with
  | nil => exact ⟨passed, sound⟩
  | cons c calls ih =>
    obtain ⟨_, next⟩ := callSound sound c
    exact ih next

theorem emptySound (apply : κ → α → Except Fault α) : Sound apply History.empty [] [] := by
  have nothing : ∀ i, (Promises.empty : Promises (Nat × κ) α).result? i = none := by
    intro i
    simp [result?, Promises.empty]
  refine ⟨rfl, ?_, ?_, fun _ => ?_, by simp, by simp, rfl, ?_, ?_⟩
  · intro j i f found
    cases found
  · intro i w found
    simp [History.empty, Promises.empty] at found
  · rw [History.empty, nothing]
    rfl
  · intro j r is
    cases is
  · intro j r _ known
    rw [History.empty, nothing] at known
    contradiction

theorem historySound (apply : κ → α → Except Fault α) (calls : List (Call κ α)) :
    ∃ passed, Sound apply (.of apply calls) passed [] :=
  callsSound (emptySound apply) calls

/-! ### Results stay -/

section

variable {σ : Type} {run : κ → α → σ → Except Fault α × σ} {ps : Promises κ α} {i : Nat} {r : Except Fault α}

theorem deliverKeeps {fuel : Nat} {ds : List (Delivery κ α)} {s : σ} (known : ps.result? i = some r) :
    (deliver run fuel ds ps s).1.result? i = some r := by
  induction fuel generalizing ds ps s with
  | zero => exact known
  | succ fuel ih =>
    cases ds with
    | nil => exact known
    | cons d rest =>
      by_cases past : ∀ w, ps.table[d.target]? ≠ some ⟨none, w⟩
      · rw [deliverPast past]
        exact ih known
      · obtain ⟨w, pending⟩ := Classical.not_forall.1 past
        have pending := Classical.not_not.1 pending
        rw [deliverPending pending]
        exact ih (resultStays known pending _)

end

theorem callKeeps {i : Nat} {r : Except Fault α} (known : h.promises.result? i = some r) (c : Call κ α) :
    (h.call apply c).promises.result? i = some r := by
  have other : i ≠ h.promises.size := Nat.ne_of_lt (resultBeyond known)
  cases c with
  | new => exact resultPush.trans ((if_neg other).trans known)
  | derive j f =>
    by_cases low : j < h.promises.size
    · rw [callDerive low]
      exact (deriveResult low).trans ((if_neg other).trans known)
    · have nothing : h.call apply (.derive j f) = h := if_neg low
      rw [nothing]
      exact known
  | settle j r' =>
    change (h.promises.settle (recorded apply) j r' h.ran).2.1.result? i = some r
    cases status : h.promises.result? j with
    | some s =>
      rw [settleSettled status]
      exact known
    | none =>
      by_cases low : j < h.promises.size
      · obtain ⟨w, pending⟩ := pendingIs low status
        rw [settlePending pending]
        exact deliverKeeps (resultStays known pending r')
      · rw [settleBeyond (Nat.le_of_not_lt low)]
        exact known

theorem callsKeep {i : Nat} {r : Except Fault α} (known : h.promises.result? i = some r) (calls : List (Call κ α)) :
    (calls.foldl (History.call apply) h).promises.result? i = some r := by
  induction calls generalizing h with
  | nil => exact known
  | cons c calls ih => exact ih (callKeeps known c)

/-! ### What a history comes to -/

theorem Sound.runs (sound : Sound apply h passed []) (i : Nat) :
    h.ran.filter (fun e => parent? h.origins e.1 = some i) =
      (h.value? i).elim [] fun v => (derivedFrom h.origins i).map fun k => (k.1, v) := by
  have given := sound.given i
  rw [List.append_nil] at given
  have whole : (passed.filterMap argument).filter (fun e => parent? h.origins e.1 = some i) =
      (passed.filter fun e => parent? h.origins e.1.1 = some i).filterMap argument := by
    rw [List.filter_filterMap, List.filterMap_filter]
    congr 1
    funext e
    obtain ⟨k, r | v⟩ := e
    · exact (ite_self _).symm
    · rfl
  rw [sound.ran, whole, given]
  unfold History.value?
  cases h.promises.result? i with
  | none => rfl
  | some r =>
    rw [Option.elim_some, Option.bind_some, List.filterMap_map]
    cases r with
    | error e => exact List.filterMap_eq_nil_iff.2 fun _ _ => rfl
    | ok v => exact congrFun (List.filterMap_eq_map (f := fun k : Nat × κ => (k.1, v))) _

theorem Sound.results (sound : Sound apply h passed []) (j : Nat) :
    h.promises.result? j = (h.settled.lookup j).or (h.inherited apply j) := by
  cases own : h.settled.lookup j with
  | some r => exact sound.settled j r own
  | none =>
    rw [Option.none_or]
    have agrees : ∀ r, h.promises.result? j = some r → h.inherited apply j = some r :=
      fun r => sound.inherited j r own
    cases known : h.promises.result? j with
    | some r => exact (agrees r known).symm
    | none =>
      symm
      refine Option.eq_none_iff_forall_ne_some.2 ?_
      intro r inherits
      obtain ⟨i, f, s, origin, parentKnown, _⟩ := inheritedSome inherits
      have given := sound.given i
      rw [List.append_nil, parentKnown] at given
      have reached : ((j, f), s) ∈ passed.filter fun e => parent? h.origins e.1.1 = some i := by
        rw [given]
        exact List.mem_map_of_mem (memDerived.2 origin)
      have arrived := sound.arrived _ ((List.mem_filter.1 reached).1)
      rw [known] at arrived
      contradiction

theorem resultsAgree {h' : History κ α} {passed' : List ((Nat × κ) × Except Fault α)} (sound : Sound apply h passed [])
    (other : Sound apply h' passed' []) (origins : h'.origins = h.origins)
    (settled : ∀ j, h'.settled.lookup j = h.settled.lookup j) (j : Nat) :
    h'.promises.result? j = h.promises.result? j := by
  induction j using Nat.strongRecOn with
  | ind j ih =>
    rw [sound.results, other.results, settled]
    congr 1
    unfold History.inherited
    rw [origins]
    cases origin : h.origins[j]?.join with
    | none => rfl
    | some k =>
      rw [Option.bind_some, Option.bind_some, ih k.1 (sound.older j k.1 k.2 (Option.join_eq_some_iff.1 origin))]

/-- A result once set stays, and is set by the promise's own call or else comes of the promise it was derived from.
Functions run where the parent has a value, on that value, each once and in the order they were given. -/
theorem promisesHold (apply : κ → α → Except Fault α) (calls : List (Call κ α)) :
    let h := History.of apply calls
    (∀ i r, h.promises.result? i = some r →
      (∀ more, (History.of apply (calls ++ more)).promises.result? i = some r) ∧
      ∀ s, h.promises.settle (recorded apply) i s h.ran = (false, h.promises, h.ran)) ∧
    (∀ i, h.ran.filter (fun e => parent? h.origins e.1 = some i) =
      (h.value? i).elim [] fun v => (derivedFrom h.origins i).map fun k => (k.1, v)) ∧
    (∀ e ∈ h.ran, (parent? h.origins e.1).isSome) ∧
    (∀ j, h.promises.result? j = (h.settled.lookup j).or (h.inherited apply j)) ∧
    ∀ others, (History.of apply others).origins = h.origins →
      (∀ j, (History.of apply others).settled.lookup j = h.settled.lookup j) →
      ∀ j, (History.of apply others).promises.result? j = h.promises.result? j := by
  intro h
  obtain ⟨passed, sound⟩ : ∃ passed, Sound apply h passed [] := historySound apply calls
  refine ⟨?_, sound.runs, ?_, sound.results, ?_⟩
  · intro i r known
    refine ⟨?_, fun s => settleSettled known⟩
    intro more
    unfold History.of
    rw [List.foldl_append]
    exact callsKeep known more
  · intro e member
    rw [sound.ran] at member
    obtain ⟨d, reached, is⟩ := List.mem_filterMap.1 member
    obtain ⟨_, _, rfl⟩ := Option.map_eq_some_iff.1 is
    exact sound.derived d (List.mem_append_left [] reached)
  · intro others origins settled
    obtain ⟨_, other⟩ := historySound apply others
    exact resultsAgree sound other origins settled

/-- A function given before the promise settles and one given after it. -/
theorem eitherOrderHolds :
    let apply : Unit → Int → Except Fault Int := fun _ v => .ok (-v)
    let first := History.of apply [.new, .derive 0 (), .settle 0 (.ok 1)]
    let later := History.of apply [.new, .settle 0 (.ok 1), .derive 0 ()]
    first.promises.result? 0 = some (.ok 1) ∧
      first.promises.settle (recorded apply) 0 (.ok 2) first.ran = (false, first.promises, first.ran) ∧
      (1, 1) ∈ first.ran ∧ (parent? first.origins 1).isSome ∧ later.origins = first.origins ∧
      later.promises.result? 1 = first.promises.result? 1 ∧ first.promises.result? 1 = some (.ok (-1)) := by
  intro apply first later
  obtain ⟨stays, _, derived, _, orders⟩ := promisesHold apply [.new, .derive 0 (), .settle 0 (.ok 1)]
  have known : first.promises.result? 0 = some (.ok 1) := rfl
  have again := (stays 0 (.ok 1) known).2 (.ok 2)
  have ran : (1, 1) ∈ first.ran := by decide +kernel
  have origins : later.origins = first.origins := rfl
  have settled : later.settled = first.settled := rfl
  have agree := orders [.new, .settle 0 (.ok 1), .derive 0 ()] origins (fun j => congrArg (·.lookup j) settled) 1
  have opposite : first.promises.result? 1 = some (.ok (-1)) := rfl
  exact ⟨known, again, ran, derived (1, 1) ran, origins, agree, opposite⟩

/-- A promise that a call of its own settles first does not hold what it would inherit. -/
theorem ownCallPrevails :
    ¬∀ (apply : Unit → Int → Except Fault Int) (calls : List (Call Unit Int)) (i j : Nat) (f : Unit) (v : Int),
      (History.of apply calls).origins[j]? = some (some (i, f)) →
      (History.of apply calls).promises.result? i = some (.ok v) →
      (History.of apply calls).promises.result? j = some (apply f v) := by
  intro all
  have inherits := all (fun _ v => .ok (-v)) [.new, .derive 0 (), .settle 1 (.ok 7), .settle 0 (.ok 1)] 0 1 () 1 rfl rfl
  have own : (History.of (fun (_ : Unit) (v : Int) => .ok (-v))
    [.new, .derive 0 (), .settle 1 (.ok 7), .settle 0 (.ok 1)]).promises.result? 1 = some (.ok 7) := rfl
  rw [own] at inherits
  exact absurd (Except.ok.inj (Option.some.inj inherits)) (by decide)

end QueryMachine.Promises
