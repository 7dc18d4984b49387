import Mathlib.Order.Bounds.Basic
import QueryMachine.Proofs.Verifier.Assignment

/-! The rule that the verifier decides, said of the code alone. Which position is visited next makes no difference
to the verdict, and there is always a last round. -/
namespace QueryMachine.Verify

def Candidate.of (ops : Array Op) (labels : List (Option Nat)) (handlers : List Handler)
    (maxLocals returnWidth : Nat) : Candidate :=
  ⟨ops, fun l => ((labels[l]?).getD none).getD 0, handlers, maxLocals, returnWidth⟩

/-! ### The rule -/

def touched : Op → List Nat
  | .load s | .store s => [s]
  | .load2 s | .store2 s => [s, s + 1]
  | _ => []

structure Permits (t : Candidate) (depth : Nat) (op : Op) : Prop where
  operands : op.effect.1 ≤ depth
  locals : ∀ s ∈ touched op, s < t.maxLocals
  returns : ∀ n, op = .ret n → depth = n ∧ n = t.returnWidth

def Leads (t : Candidate) (pc : Nat) (op : Op) (next : Nat) : Prop :=
  t.ops[pc]? = some op ∧ ((∃ l ∈ op.targets, t.position l = next) ∨ (op.fallsThrough = true ∧ pc + 1 = next))

inductive Reachable (t : Candidate) : Nat → Prop where
  | start : Reachable t 0
  | handler {h : Handler} (member : h ∈ t.handlers) : Reachable t (t.position h.target)
  | next {pc next : Nat} {op : Op} (here : Reachable t pc) (leads : Leads t pc op next) : Reachable t next

structure Assigns (t : Candidate) (D : Nat → Nat) : Prop where
  start : D 0 = 0
  handler : ∀ h ∈ t.handlers, D (t.position h.target) = 1
  inside : ∀ pc, Reachable t pc → pc < t.ops.size
  permits : ∀ pc op, Reachable t pc → t.ops[pc]? = some op → Permits t (D pc) op
  leads : ∀ pc op next, Reachable t pc → Leads t pc op next → D next = after op (D pc)
  region : ∀ h ∈ t.handlers, Reachable t (t.position h.start) → D (t.position h.start) = 0

def heights (t : Candidate) (D : Nat → Nat) : Set Nat :=
  {d | ∃ pc op, Reachable t pc ∧ t.ops[pc]? = some op ∧ (d = D pc ∨ d = after op (D pc))}

variable {t : Candidate}

theorem slotsTouched {op : Op} : (∀ s ∈ touched op, s < t.maxLocals) ↔
    ∀ first last, slots? op = some (first, last) → last < t.maxLocals := by
  cases op <;> simp [touched, slots?] <;> omega

theorem checkOpIff {pc depth : Nat} {op : Op} : checkOp t pc depth op = .ok () ↔ Permits t depth op := by
  unfold checkOp
  split
  · next low =>
    constructor
    · intro ok
      contradiction
    · intro permits
      exact absurd permits.operands (Nat.not_le_of_lt low)
  · next enough =>
    have operands : op.effect.1 ≤ depth := Nat.le_of_not_lt enough
    cases slots : slots? op with
    | some range =>
      obtain ⟨first, last⟩ := range
      have stays : ∀ n, op ≠ .ret n := by
        rintro n rfl
        contradiction
      simp only
      split
      · next beyond =>
        constructor
        · intro ok
          contradiction
        · intro permits
          exact absurd (slotsTouched.1 permits.locals first last slots) (Nat.not_lt_of_le beyond)
      · next within =>
        have locals : ∀ s ∈ touched op, s < t.maxLocals := by
          refine slotsTouched.2 ?_
          intro a b is
          cases slots.symm.trans is
          exact Nat.lt_of_not_le within
        exact ⟨fun _ => ⟨operands, locals, fun n is => absurd is (stays n)⟩, fun _ => rfl⟩
    | none =>
      have locals : ∀ s ∈ touched op, s < t.maxLocals := slotsTouched.2 (by simp [slots])
      simp only
      split
      · next n =>
        split
        · next right =>
          refine ⟨fun _ => ⟨operands, locals, ?_⟩, fun _ => rfl⟩
          rintro m ⟨⟩
          exact right
        · next wrong =>
          constructor
          · intro ok
            contradiction
          · intro permits
            exact absurd (permits.returns n rfl) wrong
      · next stays => exact ⟨fun _ => ⟨operands, locals, fun n is => (stays n is).elim⟩, fun _ => rfl⟩

/-! ### Assignments of the rule and of the search -/

open Classical in
noncomputable def onReachable (t : Candidate) (D : Nat → Nat) (pc : Nat) : Option Nat :=
  if Reachable t pc then some (D pc) else none

theorem onReachableIs {D : Nat → Nat} {pc d : Nat} :
    onReachable t D pc = some d ↔ Reachable t pc ∧ D pc = d := by
  unfold onReachable
  split
  · next here => simp [here]
  · next never => simp [never]

theorem Assigns.consistent {D : Nat → Nat} (a : Assigns t D) : Consistent t (onReachable t D) where
  start := onReachableIs.2 ⟨.start, a.start⟩
  handler h member := onReachableIs.2 ⟨.handler member, a.handler h member⟩
  obeys pc depth found := by
    obtain ⟨here, rfl⟩ := onReachableIs.1 found
    obtain ⟨op, atPc⟩ : ∃ op, t.ops[pc]? = some op := ⟨_, Array.getElem?_eq_getElem (a.inside pc here)⟩
    refine ⟨op, atPc, checkOpIff.2 (a.permits pc op here atPc), ?_, ?_⟩
    · intro l member
      have leads : Leads t pc op (t.position l) := ⟨atPc, .inl ⟨l, member, rfl⟩⟩
      exact onReachableIs.2 ⟨here.next leads, a.leads pc _ _ here leads⟩
    · intro falls
      have leads : Leads t pc op (pc + 1) := ⟨atPc, .inr ⟨falls, rfl⟩⟩
      exact onReachableIs.2 ⟨here.next leads, a.leads pc _ _ here leads⟩
  region h member depth found := by
    obtain ⟨here, rfl⟩ := onReachableIs.1 found
    exact a.region h member here

theorem Consistent.leads {E : Nat → Option Nat} (c : Consistent t E) {pc next d : Nat} {op : Op} (found : E pc = some d)
    (leads : Leads t pc op next) : E next = some (after op d) := by
  obtain ⟨other, atPc, _, targets, falls⟩ := c.obeys pc d found
  cases atPc.symm.trans leads.1
  rcases leads.2 with ⟨l, member, rfl⟩ | ⟨falling, rfl⟩
  · exact targets l member
  · exact falls falling

theorem Consistent.reaches {E : Nat → Option Nat} (c : Consistent t E) {pc : Nat} (here : Reachable t pc) :
    E pc = some ((E pc).getD 0) := by
  induction here with
  | start => rw [c.start]; rfl
  | handler member => rw [c.handler _ member]; rfl
  | next _ leads ih => rw [c.leads ih leads]; rfl

theorem Consistent.assigns {E : Nat → Option Nat} (c : Consistent t E) : Assigns t fun pc => (E pc).getD 0 where
  start := by rw [c.start]; rfl
  handler h member := by rw [c.handler h member]; rfl
  inside pc here := c.inside (c.reaches here)
  permits pc op here atPc := by
    obtain ⟨other, same, checked, _⟩ := c.obeys pc _ (c.reaches here)
    cases atPc.symm.trans same
    exact checkOpIff.1 checked
  leads pc op next here leads := by rw [c.leads (c.reaches here) leads]; rfl
  region h member here := c.region h member _ (c.reaches here)

/-! ### Answers -/

inductive Verdict (t : Candidate) : Except Rejection Nat → Prop where
  | barred {r : Rejection} (bars : entered t = .error r) : Verdict t (.error r)
  | rejected {p : Progress} {r : Rejection} (enters : entered t = .ok p) (runs : Runs t p (.error r)) :
      Verdict t (.error r)
  | settles {p q : Progress} (enters : entered t = .ok p) (runs : Runs t p (.ok q)) :
      Verdict t (checkRegions t q >>= fun _ => .ok q.maxStack)

theorem Assigns.runs {D : Nat → Nat} (a : Assigns t D) {p : Progress} {out : Except Rejection Progress}
    (enters : entered t = .ok p) (runs : Runs t p out) :
    ∃ q, out = .ok q ∧ checkRegions t q = .ok () ∧ IsGreatest (heights t D) q.maxStack := by
  obtain ⟨first, same, begun⟩ := enteredAgrees a.consistent
  cases enters.symm.trans same
  obtain ⟨q, rfl, agrees⟩ := runsAgrees a.consistent begun runs
  have regions := agrees.regions a.consistent
  obtain ⟨c, bounds⟩ := ranConsistent enters runs regions
  refine ⟨q, rfl, regions, ?_, ?_⟩
  · obtain ⟨pc, d, op, found, atPc, is⟩ := agrees.highest
    obtain ⟨here, rfl⟩ := onReachableIs.1 found
    exact ⟨pc, op, here, atPc, is⟩
  · rintro d ⟨pc, op, here, atPc, is⟩
    have found := c.reaches here
    have right := (onReachableIs.1 (agrees.same pc _ found)).2
    obtain ⟨before, other, same, high⟩ := bounds pc _ found
    cases atPc.symm.trans same
    rcases is with rfl | rfl
    · exact right ▸ before
    · exact right ▸ high

theorem verdictIff {a : Except Rejection Nat} {m : Nat} (verdict : Verdict t a) :
    a = .ok m ↔ ∃ D, Assigns t D ∧ IsGreatest (heights t D) m := by
  constructor
  · intro ok
    cases verdict with
    | barred => contradiction
    | rejected => contradiction
    | settles enters runs =>
      obtain ⟨_, regions, same⟩ := exceptBind ok
      cases same
      have assigns := (ranConsistent enters runs regions).1.assigns
      obtain ⟨_, is, _, greatest⟩ := assigns.runs enters runs
      cases is
      exact ⟨_, assigns, greatest⟩
  · rintro ⟨D, assigns, greatest⟩
    cases verdict with
    | barred bars =>
      obtain ⟨_, enters, _⟩ := enteredAgrees assigns.consistent
      cases bars.symm.trans enters
    | rejected enters runs =>
      obtain ⟨_, is, _⟩ := assigns.runs enters runs
      contradiction
    | settles enters runs =>
      obtain ⟨q, is, regions, highest⟩ := assigns.runs enters runs
      cases is
      rw [regions, highest.unique greatest]
      rfl

theorem runVerdict (t : Candidate) : Verdict t (run t) := by
  unfold run
  rw [settledIs]
  cases enters : entered t with
  | error r => exact .barred enters
  | ok p =>
    have runs := enteredRuns enters
    change Verdict t ((explore t (t.ops.size + 2) p >>= _) >>= _)
    cases explored : explore t (t.ops.size + 2) p with
    | error r => exact .rejected enters (explored ▸ runs)
    | ok q =>
      have settles : Verdict t (checkRegions t q >>= fun _ => .ok q.maxStack) := .settles enters (explored ▸ runs)
      change Verdict t ((checkRegions t q >>= _) >>= _)
      rw [bind_assoc]
      exact settles

theorem roundsEnd {f : Nat → Progress} {n : Nat} (enters : entered t = .ok (f 0))
    (rounds : ∀ i < n, Round t (f i) (.ok (f (i + 1)))) : n ≤ t.ops.size + 1 := by
  obtain ⟨sound, few⟩ := enteredSound enters
  have shrinks : ∀ i ≤ n, (f i).depths.size = t.ops.size + 1 ∧ i + (f i).pending ≤ (f 0).pending := by
    intro i low
    induction i with
    | zero => exact ⟨sound.size, by omega⟩
    | succ i ih =>
      obtain ⟨size, fewer⟩ := ih (by omega)
      have less := roundPending size (rounds i low)
      exact ⟨(roundSize (rounds i low)).trans size, by omega⟩
  have last := (shrinks n (Nat.le_refl n)).2
  omega

theorem sameVerdict {first second : Except Rejection Nat} (one : Verdict t first) (other : Verdict t second) :
    first.toOption = second.toOption := by
  have reads : ∀ {a : Except Rejection Nat} {m : Nat}, a.toOption = some m ↔ a = .ok m := by
    intro a m
    cases a <;> simp [Except.toOption]
  refine Option.ext fun m => ?_
  rw [reads, reads, verdictIff one, verdictIff other]

section

variable {ops : Array Op} {labels : List (Option Nat)} {handlers : List Handler} {maxLocals returnWidth : Nat}

theorem verifyOk {m : Nat} : verify ops labels handlers maxLocals returnWidth = .ok m ↔
    ops ≠ #[] ∧ none ∉ labels ∧ run (.of ops labels handlers maxLocals returnWidth) = .ok m := by
  have bound : labels.findIdx? (·.isNone) = none ↔ none ∉ labels := by
    rw [List.findIdx?_eq_none_iff]
    refine ⟨fun all member => Bool.noConfusion (all none member), ?_⟩
    intro absent x member
    cases x with
    | none => exact absurd member absent
    | some _ => rfl
  unfold verify
  split
  · next empty => simp [Array.isEmpty_iff.1 empty]
  · next code =>
    have present : ops ≠ #[] := fun is => code (is ▸ rfl)
    split
    · next l found =>
      have missing : ¬none ∉ labels := fun absent => by simp [bound.2 absent] at found
      simp [missing]
    · next found => exact ⟨fun ok => ⟨present, bound.1 found, ok⟩, fun ok => ok.2.2⟩

theorem codeOfVerdict {m : Nat} (verdict : Verdict (.of ops labels handlers maxLocals returnWidth) (.ok m)) :
    ops ≠ #[] := by
  rintro rfl
  obtain ⟨_, assigns, _⟩ := (verdictIff verdict).1 rfl
  exact absurd (assigns.inside 0 .start) (Nat.not_lt_zero 0)

end

/-- The verifier accepts where depths can be assigned to all that control can come to, and answers the largest of
them. Every order of the rounds comes to this verdict, and none goes on for ever. -/
theorem verifyDecides (ops : Array Op) (labels : List (Option Nat)) (handlers : List Handler)
    (maxLocals returnWidth : Nat) :
    let t := Candidate.of ops labels handlers maxLocals returnWidth
    (∀ m, verify ops labels handlers maxLocals returnWidth = .ok m ↔
      ops ≠ #[] ∧ none ∉ labels ∧ ∃ D, Assigns t D ∧ IsGreatest (heights t D) m) ∧
    (none ∉ labels → ∀ answer, Verdict t answer →
      answer.toOption = (verify ops labels handlers maxLocals returnWidth).toOption) ∧
    Verdict t (run t) ∧
    ¬∃ f : Nat → Progress, entered t = .ok (f 0) ∧ ∀ i, Round t (f i) (.ok (f (i + 1))) := by
  intro t
  refine ⟨?_, ?_, runVerdict t, ?_⟩
  · intro m
    rw [verifyOk, verdictIff (runVerdict t)]
  · intro bound answer verdict
    rw [sameVerdict verdict (runVerdict t)]
    cases ran : run t with
    | ok m => rw [verifyOk.2 ⟨codeOfVerdict (ran ▸ runVerdict t), bound, ran⟩]
    | error r =>
      cases verified : verify ops labels handlers maxLocals returnWidth with
      | error _ => rfl
      | ok m => cases ran.symm.trans (verifyOk.1 verified).2.2
  · rintro ⟨f, enters, rounds⟩
    have last := roundsEnd enters (n := ops.size + 2) fun i _ => rounds i
    exact absurd last (Nat.not_succ_le_self (ops.size + 1))

def nullLoop : Array Op := #[.constNull, .ifNull 1, .jump 0, .ret 0]

/-- The end of the loop is visited before the jump back, which waits with it. -/
theorem nullLoopDecided :
    let labels := [some 0, some 3]
    let t := Candidate.of nullLoop labels [] 0 0
    none ∉ labels ∧ Verdict t (.ok 1) ∧ (Except.ok (ε := Rejection) 1).toOption = (verify nullLoop labels [] 0 0).toOption ∧
      ∃ D, Assigns t D ∧ IsGreatest (heights t D) 1 := by
  intro labels t
  have bound : none ∉ labels := by decide
  have enters : entered t = .ok ⟨#[some 0, none, none, none, none], [0], 0⟩ := rfl
  have runs : Runs t ⟨#[some 0, none, none, none, none], [0], 0⟩ (.ok ⟨#[some 0, some 1, some 0, some 0, none], [], 1⟩) :=
    .next ⟨[], 0, [], rfl, rfl⟩ (.next ⟨[], 1, [], rfl, rfl⟩ (.next ⟨[2], 3, [], rfl, rfl⟩
      (.next ⟨[], 2, [], rfl, rfl⟩ (.finished rfl))))
  have other : Verdict t (.ok 1) := Verdict.settles enters runs
  have accepts : verify nullLoop labels [] 0 0 = .ok 1 := by decide +kernel
  obtain ⟨decides, orders, _⟩ := verifyDecides nullLoop labels [] 0 0
  exact ⟨bound, other, orders bound _ other, ((decides 1).1 accepts).2.2⟩

end QueryMachine.Verify
