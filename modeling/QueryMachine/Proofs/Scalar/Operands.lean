import QueryMachine.Proofs.Scalar.Code

/-! Arithmetic and comparison of integers and booleans: what the code of two operands makes of their values. -/
namespace QueryMachine

def pairOf (r t : Except Fault (Option Int)) : Except Fault (Option (Int × Int)) := do
  match ← r with
  | none => .ok none
  | some m => return (← t).map fun n => (m, n)

def rankOf (nullable : Bool) (r t : Except Fault (Option Int)) : Except Fault Ordering := do
  match ← r with
  | some m =>
    match ← t with
    | some n => .ok (compare m n)
    | none => .ok .gt
  | none =>
    if !nullable then return .lt
    match ← t with
    | some _ => .ok .lt
    | none => .ok .eq

namespace Machine.Thread

open Conversion Build
open Operands (Exits Between Beyond Both)

variable {θ : Thread} {w : World} {X B : Asm} {s : Stack} {ls : List Value} {a b : Scalar} {p : Prim}
  {r t : Except Fault (Option Int)} {K K' : Slots → Asm → Prop} {σ : Slots} {x : Exits}

/-- Where control goes with two operands: on with both of them, or away when one is null. The right one is asked for
where the left one is null only if the two cases are told apart. -/
def together (p : Prim) (x : Exits) (apart : Bool) (r t : Except Fault (Option Int)) (s : Stack) (ls : List Value) :
    Except Fault Leap := do
  match ← r with
  | some m =>
    match ← t with
    | some n => .ok (.on (push (p.raw n) (push (p.raw m) s)) ls)
    | none => .ok (.off x.right s ls)
  | none =>
    if !apart then return .off x.left s ls
    match ← t with
    | some _ => .ok (.off x.left s ls)
    | none => .ok (.off x.both s ls)

theorem rawKeepsInto {c : Scalar} (into : c.kind.Into p) : Scalar.Keeps ⟨p, .raw⟩ c := ⟨into, .inr (.inl rfl)⟩

theorem rightRuns (present : Label) {R N : Asm} {drop : Label} {rs : List Op} {m : Int}
    (first : p.Holds m) (right : θ.Yields ls R b t) (into : b.kind.Into p)
    (cast : castOps? (.prim p) b.type = some rs) (beyond : Beyond x (.prim p) b.type drop N) :
    θ.Runs w (R ++ Asm.nullTest b.type drop present ++ Asm.straight rs ++ N) (push (p.raw m) s) ls (do
      match ← t with
      | some n => .ok (.on (push (p.raw n) (push (p.raw m) s)) ls)
      | none => .ok (.off x.right s ls)) := by
  have ran := right.runs w (push (p.raw m) s)
  cases t with
  | error f =>
    simp only [List.append_assoc]
    exact runsError ran _
  | ok y =>
    have admits := right.admits y rfl
    have tested := nullTestRuns θ w (push (p.raw m) s) ls drop present admits
    unfold Beyond at beyond
    rw [Scalar.typeNullable] at beyond
    cases y with
    | none =>
      rw [if_pos (Scalar.nullableIff.2 admits)] at beyond
      obtain ⟨done, rfl⟩ := beyond
      have dropped : (push (p.raw m) s).drop (Ty.prim p).width = s := by
        cases p <;> first | rfl | exact first.elim
      have left : θ.Runs w [.op (.pop (Ty.prim p).width), .op (.jump x.right), .mark done] (push (p.raw m) s) ls
          (.ok (.off x.right s ls)) := by
        refine runsOp (t := s) ?_ runsJump
        change some (Except.ok (Next.next ((push (p.raw m) s).drop (Ty.prim p).width) ls)) = _
        rw [dropped]
      have landed := runsLand (Y := Asm.straight rs ++ [.op (.jump done)]) (runsAppend ran tested) left
      simp only [List.append_assoc] at landed ⊢
      exact landed
    | some n =>
      have held : θ.Runs w (R ++ Asm.nullTest b.type drop present ++ Asm.straight rs) (push (p.raw m) s) ls
          (.ok (.on (push (p.raw n) (push (p.raw m) s)) ls)) :=
        runsAppend (runsAppend ran tested) (castRuns (d := ⟨p, .raw⟩) cast (rawKeepsInto into) admits nofun)
      change θ.Runs w _ _ ls (.ok (.on (push (p.raw n) (push (p.raw m) s)) ls))
      split at beyond
      · obtain ⟨done, rfl⟩ := beyond
        have left := runsAppend held (runsJump (l := done) (X := []))
        have landed := runsLand (Y := [.mark drop, .op (.pop (Ty.prim p).width), .op (.jump x.right)]) left runsNil
        simpa using landed
      · subst beyond
        exact runsAppend held (runsMark runsNil)

theorem bothRuns (left : ∀ B, K σ B → θ.Yields ls B a r) (right : ∀ B, K' σ B → θ.Yields ls B b t)
    (intoLeft : a.kind.Into p) (intoRight : b.kind.Into p) (both : Both K K' x (.prim p) a.type b.type σ X) :
    θ.Runs w X s ls (together p x (x.apart b.type) r t s ls) := by
  obtain ⟨L, M, R, N, l, drop, dl, dr, os, rs, leftShape, leftCast, between, rightShape, rightCast, beyond, rfl⟩ := both
  obtain ⟨admits, runs⟩ := left L leftShape
  have second := right R rightShape
  have ran := runs w s
  cases r with
  | error f =>
    simp only [List.append_assoc]
    exact runsError ran _
  | ok y =>
    have admitted := admits y rfl
    have tested := nullTestRuns θ w s ls l dl admitted
    unfold Between at between
    rw [Scalar.typeNullable] at between
    cases y with
    | some m =>
      have held : θ.Runs w (L ++ Asm.nullTest a.type l dl ++ Asm.straight os) s ls (.ok (.on (push (p.raw m) s) ls)) :=
        runsAppend (runsAppend ran tested) (castRuns (d := ⟨p, .raw⟩) leftCast (rawKeepsInto intoLeft) admitted nofun)
      have rest := rightRuns (θ := θ) (w := w) (s := s) (x := x) dr
        (Prim.Holds.into admitted intoLeft) second intoRight rightCast beyond
      -- the code between the operands is passed over
      have through : θ.Runs w (L ++ Asm.nullTest a.type l dl ++ Asm.straight os ++ M) s ls
          (.ok (.on (push (p.raw m) s) ls)) := by
        split at between
        · split at between
          · obtain ⟨C, skip, _, rfl⟩ := between
            have left := runsAppend held (runsJump (l := skip) (X := []))
            have landed := runsLand (Y := [.mark l] ++ C ++ [.op (.ifNull x.both), .op (.jump x.left)]) left runsNil
            simpa using landed
          · subst between
            exact runsAppend held (runsMark runsNil)
        · obtain ⟨_, rfl⟩ := between
          simpa using held
      have whole := runsAppend through rest
      simp only [List.append_assoc] at whole ⊢
      exact whole
    | none =>
      cases apart : x.apart b.type with
      | true =>
        rw [if_pos apart, if_pos (Scalar.nullableIff.2 admitted)] at between
        obtain ⟨C, skip, againShape, rfl⟩ := between
        obtain ⟨admitsRight, runsRight⟩ := right C againShape
        have again := runsRight w s
        have nullable : b.form = .nullable := by
          rw [Exits.apart, Bool.and_eq_true, Scalar.typeNullable] at apart
          exact Scalar.nullableIff.1 apart.2
        have asked : θ.Runs w (C ++ ([.op (.ifNull x.both), .op (.jump x.left), .mark skip] ++ R ++
            Asm.nullTest b.type drop dr ++ Asm.straight rs ++ N)) s ls (together p x true (.ok none) t s ls) := by
          cases t with
          | error f => exact runsError again _
          | ok y =>
            refine runsAppend again ?_
            obtain ⟨q, _⟩ := b
            cases nullable
            cases y with
            | none => exact runsLeave rfl
            | some n => exact runsOp (t := s) rfl runsJump
        have landed := runsLand (Y := Asm.straight os ++ [.op (.jump skip)]) (runsAppend ran tested) asked
        simp only [List.append_assoc] at landed ⊢
        exact landed
      | false =>
        rw [if_neg (by simp [apart])] at between
        obtain ⟨rfl, rfl⟩ := between
        have left := runsOff (runsAppend ran tested)
          (Asm.straight os ++ [] ++ R ++ Asm.nullTest b.type drop dr ++ Asm.straight rs ++ N)
        simp only [List.append_assoc] at left ⊢
        exact left

theorem bothAdmits (left : ∀ B, K σ B → θ.Yields ls B a r) (right : ∀ B, K' σ B → θ.Yields ls B b t) {type : Ty}
    (both : Both K K' x type a.type b.type σ X) : (∀ y, r = .ok y → a.Admits y) ∧ ∀ y, t = .ok y → b.Admits y := by
  obtain ⟨L, _, R, _, _, _, _, _, _, _, leftShape, _, _, rightShape, _, _, _⟩ := both
  exact ⟨(left L leftShape).admits, (right R rightShape).admits⟩

theorem pairRuns {l : Label} (left : ∀ B, K σ B → θ.Yields ls B a r) (right : ∀ B, K' σ B → θ.Yields ls B b t)
    (intoLeft : a.kind.Into p) (intoRight : b.kind.Into p) (both : Both K K' ⟨l, l, l⟩ (.prim p) a.type b.type σ X) :
    θ.Runs w X s ls ((pairOf r t).map fun
      | some (m, n) => .on (push (p.raw n) (push (p.raw m) s)) ls
      | none => .off l s ls) := by
  have ran := bothRuns (θ := θ) (w := w) (s := s) left right intoLeft intoRight both
  have same : Exits.apart ⟨l, l, l⟩ b.type = false := by simp [Exits.apart]
  rw [same] at ran
  cases r with
  | error f => exact ran
  | ok y =>
    cases y with
    | none => exact ran
    | some m =>
      cases t with
      | error f => exact ran
      | ok z => cases z <;> exact ran

theorem pairHolds (left : ∀ x, r = .ok x → a.Admits x) (right : ∀ x, t = .ok x → b.Admits x) (intoLeft : a.kind.Into p)
    (intoRight : b.kind.Into p) {m n : Int} (is : pairOf r t = .ok (some (m, n))) : p.Holds m ∧ p.Holds n := by
  cases r with
  | error f => contradiction
  | ok y =>
    cases y with
    | none => cases is
    | some m =>
      cases t with
      | error f => contradiction
      | ok z =>
        cases z with
        | none => cases is
        | some n =>
          cases is
          exact ⟨Prim.Holds.into (left _ rfl) intoLeft, Prim.Holds.into (right _ rfl) intoRight⟩

theorem pairPresent (left : ∀ x, r = .ok x → a.Admits x) (right : ∀ x, t = .ok x → b.Admits x)
    (is : pairOf r t = .ok none) : (a.isNullable || b.isNullable) = true := by
  rw [Bool.or_eq_true, Scalar.nullableIff, Scalar.nullableIff]
  cases r with
  | error f => contradiction
  | ok y =>
    cases y with
    | none => exact .inl (left none rfl)
    | some m =>
      cases t with
      | error f => contradiction
      | ok z =>
        cases z with
        | none => exact .inr (right none rfl)
        | some n => cases is

def resultScalar (p : Prim) (nullable : Bool) : Scalar := ⟨p, if nullable then .nullable else .raw⟩

theorem resultScalarType (p : Prim) (nullable : Bool) : (resultScalar p nullable).type = resultType p nullable := by
  cases nullable <;> rfl

theorem orNullYields {q : Except Fault (Option Int)} {nullable : Bool} {isNull done : Label}
    (runs : ∀ w s, θ.Runs w B s ls (q.map fun
      | some n => .on (push (p.raw n) s) ls
      | none => .off isNull s ls))
    (holds : ∀ n, q = .ok (some n) → p.Holds n) (present : q = .ok none → nullable = true) :
    θ.Yields ls (B ++ orNullCode p nullable isNull done) (resultScalar p nullable) q := by
  constructor
  · intro y is
    cases y with
    | none =>
      rw [present is]
      rfl
    | some n => exact holds n is
  · intro w s
    have ran := runs w s
    unfold orNullCode
    cases q with
    | error f => exact runsError ran _
    | ok y =>
      cases y with
      | none =>
        rw [present rfl]
        have landed := runsLand (Y := [.op (.box p), .op (.jump done)]) ran
          (runsOp (o := .constNull) (t := .null :: s) rfl (runsMark (l := done) runsNil))
        rw [List.append_assoc] at landed
        exact landed
      | some n =>
        cases nullable with
        | false => exact runsAppend ran (runsMark (runsMark runsNil))
        | true =>
          have boxed : θ.Runs w [.op (.box p)] (push (p.raw n) s) ls (.ok (.on (.boxed (p.inBox n) :: s) ls)) :=
            runsStraight (Prim.boxPerforms (holds n rfl))
          have left := runsAppend (runsAppend ran boxed) (runsJump (l := done) (X := []))
          have landed := runsLand (Y := [.mark isNull, .op .constNull]) left runsNil
          simp only [List.append_assoc] at landed
          exact landed

theorem computedYields {o : Arith} (left : ∀ B, K σ B → θ.Yields ls B a r) (right : ∀ B, K' σ B → θ.Yields ls B b t)
    (integer : p.isInteger) (intoLeft : a.kind.Into p) (intoRight : b.kind.Into p)
    (computed : Computed K K' o p a.type b.type σ X) :
    θ.Yields ls X (resultScalar p (a.isNullable || b.isNullable)) (do
      match ← pairOf r t with
      | none => .ok none
      | some (m, n) => (o.exact m n).map fun k => some (p.wrap k)) := by
  obtain ⟨B, isNull, done, both, rfl⟩ := computed
  obtain ⟨admitsLeft, admitsRight⟩ := bothAdmits left right both
  simp only [Scalar.typeNullable]
  refine orNullYields ?_ ?_ ?_
  · intro w s
    have ran := pairRuns (θ := θ) (w := w) (s := s) left right intoLeft intoRight both
    cases answer : pairOf r t with
    | error f =>
      rw [answer] at ran
      exact runsError ran _
    | ok y =>
      rw [answer] at ran
      cases y with
      | none => exact runsOff ran _
      | some mn =>
        obtain ⟨m, n⟩ := mn
        obtain ⟨first, second⟩ := pairHolds admitsLeft admitsRight intoLeft intoRight answer
        have done := runsAppend ran (runsStraight (Prim.arithPerforms (a := o) integer first second))
        simp only [bind, Except.bind]
        cases result : o.exact m n with
        | error f =>
          rw [result] at done
          exact done
        | ok k =>
          rw [result] at done
          exact done
  · intro n is
    cases answer : pairOf r t with
    | error f =>
      rw [answer] at is
      contradiction
    | ok y =>
      rw [answer] at is
      cases y with
      | none => cases is
      | some mn =>
        obtain ⟨m, k⟩ := mn
        cases result : o.exact m k with
        | error f =>
          simp only [bind, Except.bind, result] at is
          contradiction
        | ok j =>
          simp only [bind, Except.bind, result, Except.map, Except.ok.injEq, Option.some.injEq] at is
          rw [← is]
          exact Prim.wrapHolds integer j
  · intro is
    refine pairPresent admitsLeft admitsRight ?_
    cases answer : pairOf r t with
    | error f =>
      rw [answer] at is
      contradiction
    | ok y =>
      rw [answer] at is
      cases y with
      | none => rfl
      | some mn =>
        obtain ⟨m, k⟩ := mn
        cases result : o.exact m k <;> simp [bind, Except.bind, result, Except.map] at is

theorem negatedYields (operand : ∀ B, K σ B → θ.Yields ls B a r) (integer : a.kind.isInteger)
    (negated : Negated K a.kind a.type σ X) :
    θ.Yields ls X (resultScalar a.kind a.isNullable) (r.map fun x => x.map fun n => a.kind.wrap (-n)) := by
  obtain ⟨B, isNull, done, present, os, shape, cast, rfl⟩ := negated
  obtain ⟨admits, runs⟩ := operand B shape
  rw [Scalar.typeNullable]
  refine orNullYields ?_ ?_ ?_
  · intro w s
    have ran := runs w s
    simp only [List.append_assoc]
    cases r with
    | error f => exact runsError ran _
    | ok x =>
      have tested := nullTestRuns θ w s ls isNull present (admits x rfl)
      refine runsAppend ran ?_
      cases x with
      | none => exact runsOff tested _
      | some n =>
        refine runsAppend tested ?_
        refine runsAppend (castRuns (d := ⟨a.kind, .raw⟩) cast (rawKeeps a) (admits _ rfl) nofun) ?_
        exact runsStraight (Prim.negatePerforms integer (admits _ rfl))
  · intro n is
    cases r with
    | error f => contradiction
    | ok x =>
      cases x with
      | none => cases is
      | some m =>
        cases is
        exact Prim.wrapHolds integer _
  · intro is
    cases r with
    | error f => contradiction
    | ok x =>
      cases x with
      | none => exact Scalar.nullableIff.2 (admits none rfl)
      | some m => cases is

theorem comparedRuns (θ : Thread) (w : World) (s : Stack) (ls : List Value) {m n : Int} (first : p.Holds m)
    (second : p.Holds n) :
    θ.Runs w [.op (.cmp p.num)] (push (p.raw n) (push (p.raw m) s)) ls
      (.ok (.on (.int (Number.ofOrdering (compare m n)) :: s) ls)) :=
  runsStraight (Prim.comparePerforms first second)

theorem decidedYields {c : Cond} {decide : Label → List Op} (left : ∀ B, K σ B → θ.Yields ls B a r)
    (right : ∀ B, K' σ B → θ.Yields ls B b t) (intoLeft : a.kind.Into p) (intoRight : b.kind.Into p)
    (type : Operands.comparison a.type b.type = .prim p) (deciding : ∀ f, decide f = [.cmp p.num, .ifZero c.negate f])
    (decided : Decided K K' a.type b.type decide σ X) :
    θ.Yields ls X ⟨.boolean, .raw⟩ ((pairOf r t).map fun
      | some (m, n) => some (ofTruth (c.test (compare m n)))
      | none => some (ofTruth false)) := by
  obtain ⟨B, f, done, both, rfl⟩ := decided
  rw [type] at both
  obtain ⟨admitsLeft, admitsRight⟩ := bothAdmits left right both
  rw [deciding]
  have test : θ.Branches ls (B ++ Asm.straight [.cmp p.num, .ifZero c.negate f]) f ((pairOf r t).map fun
      | some (m, n) => c.test (compare m n)
      | none => false) := by
    intro w s
    have ran := pairRuns (θ := θ) (w := w) (s := s) left right intoLeft intoRight both
    cases answer : pairOf r t with
    | error f =>
      rw [answer] at ran
      exact runsError ran _
    | ok y =>
      rw [answer] at ran
      cases y with
      | none => exact runsOff ran _
      | some mn =>
        obtain ⟨m, n⟩ := mn
        obtain ⟨first, second⟩ := pairHolds admitsLeft admitsRight intoLeft intoRight answer
        have compared := comparedRuns θ w s ls first second
        refine runsAppend ran (runsAppend compared ?_)
        have turn : core w.heap θ.method (.ifZero c.negate f) (.int (Number.ofOrdering (compare m n)) :: s) ls =
            some (.ok (branch θ.method (!c.test (compare m n)) f s ls)) := by
          have same : c.negate.test (compare (Number.ofOrdering (compare m n)) 0) = !c.test (compare m n) := by
            rw [Cond.testNegate]
            cases compare m n <;> rfl
          rw [← same]
          rfl
        cases holds : c.test (compare m n) with
        | true =>
          rw [holds] at turn
          simp only [Except.map, holds, if_true]
          exact runsOp turn runsNil
        | false =>
          rw [holds] at turn
          simp only [Except.map, holds, Bool.false_eq_true, if_false]
          exact runsLeave turn
  have yields := choiceYields done false test
  cases answer : pairOf r t with
  | error f =>
    rw [answer] at yields
    exact yields
  | ok y =>
    rw [answer] at yields
    cases y with
    | none => exact yields
    | some mn => simpa [Except.map] using yields

theorem comparedYields {location : Location} (left : ∀ B, K σ B → θ.Yields ls B a r)
    (right : ∀ B, K' σ B → θ.Yields ls B b t) (intoLeft : a.kind.Into p) (intoRight : b.kind.Into p)
    (type : Operands.comparison a.type b.type = .prim p) (compared : Compared K K' a.type b.type location σ X) :
    θ.Yields ls X ⟨.int32, .raw⟩ ((rankOf b.isNullable r t).map fun o => some (Number.ofOrdering o).toInt) := by
  obtain ⟨B, l, g, e, done, both, rfl⟩ := compared
  rw [type] at both ⊢
  obtain ⟨admitsLeft, admitsRight⟩ := bothAdmits left right both
  constructor
  · intro x is
    cases answer : rankOf b.isNullable r t with
    | error f =>
      rw [answer] at is
      contradiction
    | ok o =>
      rw [answer] at is
      cases is
      cases o <;> exact ⟨by decide, by decide⟩
  · intro w s start stop spans
    -- the labels mark different places
    have apart : l ≠ e := by
      obtain ⟨_, _, _, _, first, _, _, _, _, _, third, _⟩ := Method.spansAppend.1 spans
      rintro rfl
      omega
    refine (?_ : θ.Runs w _ s ls _) start stop spans
    have ran := bothRuns (θ := θ) (w := w) (s := s) left right intoLeft intoRight both
    have told : Exits.apart ⟨l, g, e⟩ b.type = b.isNullable := by simp [Exits.apart, apart]
    rw [told] at ran
    have ranked : ∀ (v : Int32) (rest : Asm),
        θ.Runs w (.op (.const (.int v)) :: ([.op (.jump done)] ++ rest ++ [.mark done])) s ls (.ok (.on (.int v :: s) ls)) :=
      fun v rest => runsOp (t := .int v :: s) rfl (runsLand runsJump runsNil)
    have less (left : θ.Runs w B s ls (.ok (.off l s ls))) := runsLand
      (Y := [.op (.cmp p.num), .op (.jump done)]) left (ranked (-1) [.mark g, .op (.const (.int 1)), .op (.jump done),
        .mark e, .op (.const (.int 0)), .op (.jump done)])
    have greater (left : θ.Runs w B s ls (.ok (.off g s ls))) := runsLand
      (Y := [.op (.cmp p.num), .op (.jump done), .mark l, .op (.const (.int (-1))), .op (.jump done)]) left
      (ranked 1 [.mark e, .op (.const (.int 0)), .op (.jump done)])
    have equal (left : θ.Runs w B s ls (.ok (.off e s ls))) := runsLand
      (Y := [.op (.cmp p.num), .op (.jump done), .mark l, .op (.const (.int (-1))), .op (.jump done),
        .mark g, .op (.const (.int 1)), .op (.jump done)]) left (ranked 0 [])
    simp only [List.append_assoc, List.cons_append, List.nil_append] at less greater equal
    cases r with
    | error f => exact runsError ran _
    | ok y =>
      cases y with
      | some m =>
        cases t with
        | error f => exact runsError ran _
        | ok z =>
          cases z with
          | none => exact greater ran
          | some n =>
            obtain ⟨first, second⟩ := pairHolds (r := .ok (some m)) (t := .ok (some n)) admitsLeft admitsRight
              intoLeft intoRight rfl
            have compared := comparedRuns θ w s ls first second
            have left := runsAppend (runsAppend ran compared) (runsJump (l := done) (X := []))
            have landed := runsLand (Y := [.mark l, .op (.const (.int (-1))), .op (.jump done),
              .mark g, .op (.const (.int 1)), .op (.jump done), .mark e, .op (.const (.int 0)), .op (.jump done)]) left runsNil
            simp only [List.append_assoc] at landed
            change θ.Runs w _ s ls (.ok (.on (push (.int (.ofInt (Number.ofOrdering (compare m n)).toInt)) s) ls))
            rw [Int32.ofInt_toInt]
            exact landed
      | none =>
        cases nullable : b.isNullable with
        | false =>
          rw [nullable] at ran
          exact less ran
        | true =>
          rw [nullable] at ran
          cases t with
          | error f => exact runsError ran _
          | ok z =>
            cases z with
            | none => exact equal ran
            | some n => exact less ran

end Machine.Thread

end QueryMachine
