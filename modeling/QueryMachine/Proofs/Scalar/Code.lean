import QueryMachine.Proofs.Build.Access
import QueryMachine.Proofs.Scalar.Number

/-! Code of integers and booleans: what each shape of code that the builders write makes of the values of its operands,
with null as a missing number. -/
namespace QueryMachine

open Machine
open Conversion

inductive Form where
  | raw
  | boxed
  | nullable
  deriving DecidableEq

structure Scalar where
  kind : Prim
  form : Form
  deriving DecidableEq

namespace Scalar

def type : Scalar → Ty
  | ⟨p, .raw⟩ => .prim p
  | ⟨p, .boxed⟩ => .atom false (.boxed p)
  | ⟨p, .nullable⟩ => .atom true (.boxed p)

def isNullable (c : Scalar) : Bool := c.form == .nullable

def value (c : Scalar) : Option Int → Value
  | none => .null
  | some n => match c.form with
    | .raw => c.kind.raw n
    | _ => .boxed (c.kind.inBox n)

def Admits (c : Scalar) : Option Int → Prop
  | none => c.form = .nullable
  | some n => c.kind.Holds n

/-- Conversion from `source` to `target` keeps every number. -/
structure Keeps (target source : Scalar) : Prop where
  into : source.kind.Into target.kind
  converts : source.form = .raw ∨ target.form = .raw ∨ source.kind = target.kind

def carry (target source : Scalar) : Option Int → Except Fault (Option Int)
  | none => .ok none
  | some n =>
    if source.form = .raw ∨ target.form = .raw ∨ source.kind = target.kind then .ok (some n)
    else .error (.classCast target.kind.boxClass source.kind.boxClass)

def castOps : Scalar → Scalar → List Op
  | ⟨q, .raw⟩, ⟨p, .raw⟩ => primitive p q
  | ⟨q, .raw⟩, ⟨p, _⟩ => .unbox p :: primitive p q
  | ⟨q, _⟩, ⟨p, .raw⟩ => primitive p q ++ [.box q]
  | ⟨q, _⟩, ⟨p, _⟩ => if p = q then [] else [.checkCast q.boxClass]

variable {c target source : Scalar} {p q : Prim} {n : Int} {x : Option Int} {s : Stack}

@[simp] theorem typeNullable (c : Scalar) : c.type.isNullable = c.isNullable := by
  obtain ⟨p, form⟩ := c
  cases form <;> rfl

@[simp] theorem typePrim (c : Scalar) : c.type.prim? = some c.kind := by
  obtain ⟨p, form⟩ := c
  cases form <;> rfl

@[simp] theorem typeAny (c : Scalar) : c.type.isAny = false := by
  obtain ⟨p, form⟩ := c
  cases form <;> rfl

@[simp] theorem typeTruth (c : Scalar) : c.type.truth? = some c.kind := by simp [Ty.truth?]

theorem nullableIff : c.isNullable = true ↔ c.form = .nullable := beq_iff_eq

theorem boxOfClass (p : Prim) : boxOf? (.ref p.boxClass) = some p := by cases p <;> rfl

theorem boxClassInj : p.boxClass = q.boxClass ↔ p = q := by
  refine ⟨?_, congrArg _⟩
  intro same
  have found := boxOfClass p
  rw [same, boxOfClass q] at found
  exact (Option.some.inj found).symm

theorem boxClassObject (p : Prim) : p.boxClass ≠ "Object" := by cases p <;> decide

theorem castIs (target source : Scalar) : castOps? target.type source.type = some (castOps target source) := by
  obtain ⟨q, targetForm⟩ := target
  obtain ⟨p, sourceForm⟩ := source
  have both : ∀ m n, castOps? (.atom m (.boxed q)) (.atom n (.boxed p)) =
      some (if p = q then [] else [.checkCast q.boxClass]) := by
    intro m n
    simp only [castOps?, Ty.rep, Rep.ref.injEq, boxClassInj, Rep.object, boxClassObject, ops?, checkOps?, if_false,
      @eq_comm _ q p]
    split <;> rfl
  have opened : ∀ n, castOps? (.prim q) (.atom n (.boxed p)) = some (.unbox p :: primitive p q) := by
    intro n
    simp [castOps?, Ty.rep, Rep.object, ops?, boxOfClass]
  have closed : ∀ m, castOps? (.atom m (.boxed q)) (.prim p) = some (primitive p q ++ [.box q]) := by
    intro m
    simp [castOps?, Ty.rep, Rep.object, boxClassObject, ops?, boxOfClass]
  have plain : castOps? (.prim q) (.prim p) = some (primitive p q) := by
    unfold castOps?
    split
    · next same =>
      cases same
      rw [primitive, if_pos rfl]
    · simp [Ty.rep, Rep.object, ops?]
  cases targetForm with
  | raw =>
    cases sourceForm with
    | raw => exact plain
    | _ => exact opened _
  | _ =>
    cases sourceForm with
    | raw => exact closed _
    | _ => exact both _ _

theorem nullPerforms (boxed : target.form ≠ .raw) (null : source.form = .nullable) :
    Performs (castOps target source) (.null :: s) (.ok (.null :: s)) := by
  have either : Performs (if source.kind = target.kind then [] else [.checkCast target.kind.boxClass]) (.null :: s)
      (.ok (.null :: s)) := by
    split
    · exact .done
    · exact .next (fun _ _ _ => rfl) .done
  obtain ⟨q, targetForm⟩ := target
  obtain ⟨p, sourceForm⟩ := source
  cases null
  cases targetForm with
  | raw => contradiction
  | _ => exact either

theorem refusedPerforms (h : Heap) (m : Method) (ls : List Value) (holds : p.Holds n) (apart : p ≠ q) :
    core h m (.checkCast q.boxClass) (.boxed (p.inBox n) :: s) ls = some (.error (.classCast q.boxClass p.boxClass)) := by
  have named : h.className (.boxed (p.inBox n)) = p.boxClass := by cases p <;> first | rfl | exact holds.elim
  have other : h.isInstance (.boxed (p.inBox n)) q.boxClass = false := by
    have classes : (p.boxClass == q.boxClass) = false := beq_eq_false_iff_ne.2 (mt boxClassInj.1 apart)
    have plain : q.boxClass.startsWith "[" = false := by cases q <;> decide +kernel
    have notObject : (q.boxClass == "Object") = false := beq_eq_false_iff_ne.2 (boxClassObject q)
    have notNumber : (q.boxClass == "Number") = false := by cases q <;> rfl
    simp [Heap.isInstance, notObject, notNumber, plain, named, classes]
  simp [core, other, named, Value.isObject]

theorem carriedPerforms (into : source.kind.Into target.kind) (holds : source.kind.Holds n) :
    Performs (castOps target source) (push (source.value (some n)) s)
      ((target.carry source (some n)).map fun x => push (target.value x) s) := by
  have moved := Prim.primitivePerforms (s := s) holds into
  obtain ⟨q, targetForm⟩ := target
  obtain ⟨p, sourceForm⟩ := source
  have opened : Performs (.unbox p :: primitive p q) (.boxed (p.inBox n) :: s) (.ok (push (q.raw n) s)) :=
    Performs.append (Prim.unboxPerforms holds) moved
  have closed : Performs (primitive p q ++ [.box q]) (push (p.raw n) s) (.ok (.boxed (q.inBox n) :: s)) :=
    moved.append (Prim.boxPerforms (holds.into into))
  have either : Performs (if p = q then [] else [.checkCast q.boxClass]) (.boxed (p.inBox n) :: s)
      (if p = q then .ok (.boxed (q.inBox n) :: s) else .error (.classCast q.boxClass p.boxClass)) := by
    split
    · next same =>
      subst same
      exact .done
    · next apart => exact .fault fun h m ls => refusedPerforms h m ls holds apart
  have both : ((if p = q then .ok (some n) else .error (.classCast q.boxClass p.boxClass) :
      Except Fault (Option Int)).map fun x => push (Scalar.value ⟨q, .boxed⟩ x) s) =
      if p = q then .ok (.boxed (q.inBox n) :: s) else .error (.classCast q.boxClass p.boxClass) := by
    split <;> rfl
  cases targetForm with
  | raw =>
    cases sourceForm with
    | raw => exact moved
    | _ => exact opened
  | _ =>
    cases sourceForm with
    | raw => exact closed
    | _ =>
      simp only [carry, reduceCtorEq, false_or]
      exact both ▸ either

theorem Keeps.carries (keeps : Keeps target source) (x : Option Int) : target.carry source x = .ok x := by
  cases x with
  | none => rfl
  | some n => exact if_pos keeps.converts

theorem Keeps.carriesAll (keeps : Keeps target source) (r : Except Fault (Option Int)) : (r >>= target.carry source) = r := by
  cases r with
  | error f => rfl
  | ok x => exact keeps.carries x

theorem carriedSame {r : Except Fault (Option Int)} (is : (r >>= target.carry source) = .ok x) : r = .ok x := by
  cases r with
  | error f => contradiction
  | ok y =>
    cases y with
    | none => exact is
    | some n =>
      change (if _ then _ else _) = _ at is
      split at is
      · exact is
      · contradiction

theorem castPerforms (into : source.kind.Into target.kind) (admits : source.Admits x) (null : x = none → target.form ≠ .raw) :
    Performs (castOps target source) (push (source.value x) s) ((target.carry source x).map fun x => push (target.value x) s) := by
  cases x with
  | none => exact nullPerforms (null rfl) admits
  | some n => exact carriedPerforms into admits

end Scalar

/-- A number where a truth value is needed; null counts as false. -/
def truth : Option Int → Bool
  | none => false
  | some n => n != 0

def ofTruth (b : Bool) : Int := if b then 1 else 0

theorem truthAdmits (b : Bool) : Scalar.Admits ⟨.boolean, .raw⟩ (some (ofTruth b)) := by
  cases b
  · exact .inl rfl
  · exact .inr rfl

section

variable {ι : Type} (r : ι → Except Fault (Option Int))

def allOf : List ι → Except Fault Bool
  | [] => .ok true
  | i :: is => do
    let x ← r i
    if truth x then allOf is else .ok false

def anyOf : List ι → Except Fault Bool
  | [] => .ok false
  | i :: is => do
    let x ← r i
    if truth x then .ok true else anyOf is

def firstOf : List ι → Except Fault (Option Int)
  | [] => .ok none
  | i :: is => do
    match ← r i with
    | some n => .ok (some n)
    | none => firstOf is

variable {r} in
theorem firstCongr {r' : ι → Except Fault (Option Int)} {items : List ι} (same : ∀ i ∈ items, r i = r' i) :
    firstOf r items = firstOf r' items := by
  induction items with
  | nil => rfl
  | cons i is ih =>
    rw [List.forall_mem_cons] at same
    rw [firstOf, firstOf, same.1, ih same.2]

end

namespace Machine.Thread

open Build

variable {θ : Thread} {w : World} {X B : Asm} {s : Stack} {ls : List Value} {c d : Scalar} {l done : Label}
  {r : Except Fault (Option Int)} {K K' : Slots → Asm → Prop} {σ : Slots}

/-- Code of an expression that makes a number of the scalar, null, or a fault. -/
structure Yields (θ : Thread) (ls : List Value) (X : Asm) (c : Scalar) (r : Except Fault (Option Int)) : Prop where
  admits : ∀ x, r = .ok x → c.Admits x
  runs : ∀ w s, θ.Runs w X s ls (r.map fun x => .on (push (c.value x) s) ls)

/-- Code that goes on when a test holds and leaves for a label when it does not. -/
def Branches (θ : Thread) (ls : List Value) (X : Asm) (l : Label) (r : Except Fault Bool) : Prop :=
  ∀ w s, θ.Runs w X s ls (r.map fun b => if b then .on s ls else .off l s ls)

/-! ### Nulls and conversions -/

theorem nullTestRuns (θ : Thread) (w : World) (s : Stack) (ls : List Value) (l done : Label) {x : Option Int}
    (admits : c.Admits x) :
    θ.Runs w (Asm.nullTest c.type l done) (push (c.value x) s) ls
      (.ok (if x.isNone then .off l s ls else .on (push (c.value x) s) ls)) := by
  unfold Asm.nullTest
  rw [Scalar.typeNullable]
  cases nullable : c.isNullable with
  | false =>
    cases x with
    | none => rw [Scalar.nullableIff.2 admits] at nullable; contradiction
    | some n => exact runsNil
  | true =>
    have form := Scalar.nullableIff.1 nullable
    obtain ⟨p, _⟩ := c
    cases form
    cases x with
    | none =>
      refine runsOp (t := .null :: .null :: s) rfl ?_
      refine runsOp (t := .null :: s) rfl ?_
      exact runsOp (t := s) rfl runsJump
    | some n =>
      refine runsOp (t := .boxed (p.inBox n) :: .boxed (p.inBox n) :: s) rfl ?_
      exact runsLand (X := [.op (.ifNonNull done)]) (Y := [.op (.pop 1), .op (.jump l)]) (runsLeave rfl) runsNil

theorem carryRuns {x : Option Int} {os : List Op} (is : castOps? d.type c.type = some os) (into : c.kind.Into d.kind)
    (admits : c.Admits x) (null : x = none → d.form ≠ .raw) :
    θ.Runs w (Asm.straight os) (push (c.value x) s) ls ((d.carry c x).map fun x => .on (push (d.value x) s) ls) := by
  rw [Scalar.castIs] at is
  cases is
  have runs : θ.Runs w _ _ ls _ := runsStraight (Scalar.castPerforms (s := s) into admits null)
  cases carried : d.carry c x <;> rw [carried] at runs <;> exact runs

theorem castRuns {x : Option Int} {os : List Op} (is : castOps? d.type c.type = some os) (keeps : d.Keeps c)
    (admits : c.Admits x) (null : x = none → d.form ≠ .raw) :
    θ.Runs w (Asm.straight os) (push (c.value x) s) ls (.ok (.on (push (d.value x) s) ls)) := by
  have runs : θ.Runs w _ _ ls _ := carryRuns (s := s) is keeps.into admits null
  rw [keeps.carries] at runs
  exact runs

theorem rawKeeps (c : Scalar) : Scalar.Keeps ⟨c.kind, .raw⟩ c := ⟨.inl rfl, .inr (.inl rfl)⟩

/-! ### Tests -/

theorem testsBranch (operand : ∀ B, K σ B → θ.Yields ls B c r) (tests : Tests K c.type l σ X) :
    θ.Branches ls X l (r.map truth) := by
  obtain ⟨B, p, present, os, shape, is, cast, rfl⟩ := tests
  rw [Scalar.typeTruth] at is
  cases is
  obtain ⟨admits, runs⟩ := operand B shape
  intro w s
  simp only [List.append_assoc]
  cases r with
  | error f => exact runsError (runs w s) _
  | ok x =>
    refine runsAppend (runs w s) ?_
    have tested := nullTestRuns θ w s ls l present (admits x rfl)
    cases x with
    | none => exact runsOff tested _
    | some n =>
      refine runsAppend tested ?_
      refine runsAppend (castRuns (d := ⟨c.kind, .raw⟩) cast (rawKeeps c) (admits _ rfl) nofun) ?_
      obtain ⟨z, zero, same⟩ := Prim.zeroPerforms (s := s) (admits _ rfl)
      refine runsAppend (runsStraight zero) ?_
      have turn : core w.heap θ.method (.ifZero .eq l) (.int z :: s) ls =
          some (.ok (branch θ.method (decide (n = 0)) l s ls)) := by
        rw [← same]
        rfl
      by_cases is : n = 0
      · have left : truth (some n) = false := by simp [truth, is]
        simp only [Except.map, left, Bool.false_eq_true, if_false]
        exact runsLeave (by rw [turn, decide_eq_true is]; rfl)
      · have stayed : truth (some n) = true := by simp [truth, is]
        simp only [Except.map, stayed, if_true]
        exact runsOp (by rw [turn, decide_eq_false is]; rfl) runsNil

theorem choiceRuns (done : Label) (first second : Int32) {b : Bool}
    (test : θ.Runs w B s ls (.ok (if b then .on s ls else .off l s ls))) :
    θ.Runs w (B ++ Asm.choice first second l done) s ls (.ok (.on (.int (if b then first else second) :: s) ls)) := by
  unfold Asm.choice
  cases b with
  | true =>
    refine runsAppend test (runsOp (t := .int first :: s) rfl ?_)
    exact runsLand (X := [.op (.jump done)]) (Y := [.mark l, .op (.const (.int second))]) runsJump runsNil
  | false =>
    have landed := runsLand (Y := [.op (.const (.int first)), .op (.jump done)]) test
      (runsOp (o := .const (.int second)) (t := .int second :: s) rfl (runsMark (l := done) runsNil))
    simpa using landed

theorem choiceYields (done : Label) {t : Except Fault Bool} (flip : Bool) (test : θ.Branches ls B l t) :
    θ.Yields ls (B ++ Asm.choice (if flip then 0 else 1) (if flip then 1 else 0) l done) ⟨.boolean, .raw⟩
      (t.map fun b => some (ofTruth (b ^^ flip))) := by
  constructor
  · intro x is
    cases t with
    | error f => contradiction
    | ok b =>
      cases is
      exact truthAdmits _
  · intro w s
    cases t with
    | error f => exact runsError (test w s) _
    | ok b =>
      have ran := choiceRuns done (if flip then 0 else 1) (if flip then 1 else 0) (test w s)
      cases b <;> cases flip <;> exact ran

theorem nullToldYields (operand : ∀ B, K σ B → θ.Yields ls B c r) (told : NullTold K c.type σ X) :
    θ.Yields ls X ⟨.boolean, .raw⟩ (r.map fun x => some (ofTruth x.isNone)) := by
  obtain ⟨B, shape, rest⟩ := told
  obtain ⟨admits, runs⟩ := operand B shape
  rw [Scalar.typeNullable] at rest
  cases nullable : c.isNullable with
  | true =>
    rw [if_pos nullable] at rest
    obtain ⟨l, done, rfl⟩ := rest
    have form := Scalar.nullableIff.1 nullable
    have test : θ.Branches ls (B ++ [.op (.ifNull l)]) l (r.map fun x => x.isSome) := by
      intro w s
      cases r with
      | error f => exact runsError (runs w s) _
      | ok x =>
        refine runsAppend (runs w s) ?_
        obtain ⟨p, _⟩ := c
        cases form
        cases x with
        | none => exact runsLeave rfl
        | some n => exact runsOp rfl runsNil
    have chosen := choiceYields done true test
    cases r with
    | error f => exact chosen
    | ok x => cases x <;> exact chosen
  | false =>
    rw [if_neg (by simp [nullable])] at rest
    subst rest
    constructor
    · intro x is
      cases r with
      | error f => contradiction
      | ok y =>
        cases is
        exact truthAdmits _
    · intro w s
      cases r with
      | error f => exact runsError (runs w s) _
      | ok x =>
        refine runsAppend (runs w s) ?_
        cases x with
        | none => rw [Scalar.nullableIff.2 (admits none rfl)] at nullable; contradiction
        | some n =>
          have dropped : (push (c.value (some n)) s).drop c.type.width = s := by
            have holds := admits _ rfl
            obtain ⟨p, form⟩ := c
            cases form with
            | raw => cases p <;> first | rfl | exact holds.elim
            | _ => rfl
          refine runsOp (t := s) ?_ (runsOp rfl runsNil)
          change some (Except.ok (Next.next ((push (c.value (some n)) s).drop c.type.width) ls)) = _
          rw [dropped]

theorem chosenYields (operand : ∀ B, K σ B → θ.Yields ls B c r) (chosen : Chosen K c.type 0 1 σ X) :
    θ.Yields ls X ⟨.boolean, .raw⟩ (r.map fun x => some (ofTruth !truth x)) := by
  obtain ⟨B, f, done, tests, rfl⟩ := chosen
  have yields := choiceYields done true (testsBranch operand tests)
  cases r with
  | error f => exact yields
  | ok x => simpa [Except.map] using yields

section

variable {ι : Type} {items : List ι} {type : ι → Ty} {c : ι → Scalar} {r : ι → Except Fault (Option Int)}
  {K : ι → Slots → Asm → Prop}

theorem allBranch (operands : ∀ i ∈ items, type i = (c i).type ∧ ∀ B, K i σ B → θ.Yields ls B (c i) (r i))
    (each : Each (fun i => Tests (K i) (type i) l σ) items X) : θ.Branches ls X l (allOf r items) := by
  induction items generalizing X with
  | nil =>
    cases each
    exact fun w s => runsNil
  | cons i is ih =>
    obtain ⟨B, C, tests, rest, rfl⟩ := each
    rw [List.forall_mem_cons] at operands
    obtain ⟨⟨typed, operand⟩, others⟩ := operands
    rw [typed] at tests
    have first := testsBranch operand tests
    intro w s
    have first := first w s
    rw [allOf]
    cases answer : r i with
    | error f =>
      rw [answer] at first
      exact runsError first C
    | ok x =>
      rw [answer] at first
      simp only [bind, Except.bind, Except.map] at first ⊢
      cases holds : truth x with
      | true =>
        rw [holds] at first
        exact runsAppend first (ih others rest w s)
      | false =>
        rw [holds] at first
        exact runsOff first C

theorem conjunctionYields (operands : ∀ i ∈ items, type i = (c i).type ∧ ∀ B, K i σ B → θ.Yields ls B (c i) (r i))
    (each : Each (fun i => Tests (K i) (type i) l σ) items B) :
    θ.Yields ls (B ++ Asm.choice 1 0 l done) ⟨.boolean, .raw⟩ ((allOf r items).map fun b => some (ofTruth b)) := by
  have yields := choiceYields done false (allBranch operands each)
  simpa using yields

theorem anyBranch (operands : ∀ i ∈ items, type i = (c i).type ∧ ∀ B, K i σ B → θ.Yields ls B (c i) (r i))
    (each : Each (fun i => Leaves (K i) (type i) l σ) items X) : θ.Branches ls X l ((anyOf r items).map (!·)) := by
  induction items generalizing X with
  | nil =>
    cases each
    exact fun w s => runsNil
  | cons i is ih =>
    obtain ⟨_, C, ⟨B, next, tests, rfl⟩, rest, rfl⟩ := each
    rw [List.forall_mem_cons] at operands
    obtain ⟨⟨typed, operand⟩, others⟩ := operands
    rw [typed] at tests
    have first := testsBranch operand tests
    intro w s
    have first := first w s
    rw [anyOf, List.append_assoc]
    cases answer : r i with
    | error f =>
      rw [answer] at first
      exact runsError first _
    | ok x =>
      rw [answer] at first
      simp only [Except.map] at first
      simp only [bind, Except.bind]
      cases holds : truth x with
      | true =>
        rw [holds] at first
        exact runsAppend first runsJump
      | false =>
        rw [holds] at first
        have landed := runsLand (Y := [.op (.jump l)]) first (ih others rest w s)
        rw [List.append_assoc] at landed
        exact landed

theorem disjunctionYields (operands : ∀ i ∈ items, type i = (c i).type ∧ ∀ B, K i σ B → θ.Yields ls B (c i) (r i))
    (each : Each (fun i => Leaves (K i) (type i) l σ) items B) :
    θ.Yields ls (B ++ Asm.choice 0 1 l done) ⟨.boolean, .raw⟩ ((anyOf r items).map fun b => some (ofTruth b)) := by
  have yields := choiceYields done true (anyBranch operands each)
  cases answer : anyOf r items with
  | error f =>
    rw [answer] at yields
    exact yields
  | ok b =>
    rw [answer] at yields
    simpa [Except.map] using yields

end

/-! ### Choices -/

theorem convertedYields (operand : ∀ B, K σ B → θ.Yields ls B c r) (into : c.kind.Into d.kind)
    (room : c.form = .nullable → d.form = .nullable) (converted : Converted K d.type c.type σ X) :
    θ.Yields ls X d (r >>= d.carry c) := by
  obtain ⟨B, os, shape, cast, rfl⟩ := converted
  obtain ⟨admits, runs⟩ := operand B shape
  constructor
  · intro x is
    have holds := admits x (Scalar.carriedSame is)
    cases x with
    | none => exact room holds
    | some n => exact holds.into into
  · intro w s
    cases r with
    | error f => exact runsError (runs w s) _
    | ok x =>
      refine runsAppend (runs w s) (carryRuns cast into (admits x rfl) ?_)
      rintro rfl
      rw [room (admits none rfl)]
      exact nofun

theorem selectedYields {t y n : Scalar} {Kt Ky Kn : Slots → Asm → Prop} {rt ry rn : Except Fault (Option Int)}
    (test : ∀ B, Kt σ B → θ.Yields ls B t rt) (yes : ∀ B, Ky σ B → θ.Yields ls B y ry)
    (no : ∀ B, Kn σ B → θ.Yields ls B n rn) (unified : Ty.unify y.type n.type = d.type)
    (intoYes : y.kind.Into d.kind) (intoNo : n.kind.Into d.kind) (roomYes : y.form = .nullable → d.form = .nullable)
    (roomNo : n.form = .nullable → d.form = .nullable) (selected : Selected Kt Ky Kn t.type y.type n.type σ X) :
    θ.Yields ls X d (do if truth (← rt) then ry >>= d.carry y else rn >>= d.carry n) := by
  obtain ⟨T, Y, N, next, done, tests, yesCode, noCode, rfl⟩ := selected
  rw [unified] at yesCode noCode
  have tested := testsBranch test tests
  have first := convertedYields yes intoYes roomYes yesCode
  have second := convertedYields no intoNo roomNo noCode
  generalize ry >>= d.carry y = ry at first ⊢
  generalize rn >>= d.carry n = rn at second ⊢
  constructor
  · intro x is
    cases rt with
    | error f => contradiction
    | ok v =>
      simp only [bind, Except.bind] at is
      split at is
      · exact first.admits x is
      · exact second.admits x is
  · intro w s
    have tested := tested w s
    cases rt with
    | error f =>
      simp only [List.append_assoc]
      exact runsError tested _
    | ok v =>
      simp only [bind, Except.bind, Except.map] at tested ⊢
      cases holds : truth v with
      | true =>
        rw [holds] at tested
        simp only [if_true] at tested ⊢
        have ran := first.runs w s
        cases ry with
        | error f =>
          have failed := runsError (runsAppend tested ran) ([.op (.jump done), .mark next] ++ N ++ [.mark done])
          simpa using failed
        | ok x =>
          have left := runsAppend (runsAppend tested ran) (runsJump (l := done) (X := []))
          have landed := runsLand (Y := [.mark next] ++ N) left runsNil
          simpa using landed
      | false =>
        rw [holds] at tested
        simp only [Bool.false_eq_true, if_false] at tested ⊢
        have ran := second.runs w s
        cases rn with
        | error f =>
          have landed := runsLand (Y := Y ++ [.op (.jump done)]) tested (runsError ran [.mark done])
          simpa using landed
        | ok x =>
          have landed := runsLand (Y := Y ++ [.op (.jump done)]) tested (runsAppend ran (runsMark (l := done) runsNil))
          simpa using landed

section

variable {ι : Type} {items : List ι} {type : ι → Ty} {c : ι → Scalar} {r : ι → Except Fault (Option Int)}
  {K : ι → Slots → Asm → Prop}

theorem offersRun (operands : ∀ i ∈ items, type i = (c i).type ∧ ∀ B, K i σ B → θ.Yields ls B (c i) (r i))
    (into : ∀ i ∈ items, (c i).kind.Into d.kind) (each : Each (fun i => Offers (K i) d.type (type i) done σ) items X) :
    θ.Runs w X s ls ((firstOf (fun i => r i >>= d.carry (c i)) items).map fun x =>
      if x.isNone then .on s ls else .off done (push (d.value x) s) ls) := by
  induction items generalizing X with
  | nil =>
    cases each
    exact runsNil
  | cons i is ih =>
    obtain ⟨_, C, ⟨B, next, present, os, shape, cast, rfl⟩, rest, rfl⟩ := each
    rw [List.forall_mem_cons] at operands into
    obtain ⟨⟨typed, operand⟩, others⟩ := operands
    rw [typed] at cast ⊢
    obtain ⟨admits, runs⟩ := operand B shape
    have ran := runs w s
    simp only [List.append_assoc]
    rw [firstOf]
    cases answer : r i with
    | error f =>
      rw [answer] at ran
      exact runsError ran _
    | ok x =>
      rw [answer] at ran
      have tested := nullTestRuns θ w s ls next present (admits x answer)
      simp only [bind, Except.bind]
      cases x with
      | none =>
        have landed := runsLand (Y := Asm.straight os ++ [.op (.jump done)]) (runsAppend ran tested)
          (ih others into.2 rest)
        simp only [List.append_assoc] at landed
        exact landed
      | some n =>
        have held : θ.Runs w (Asm.straight os) (push ((c i).value (some n)) s) ls _ :=
          carryRuns cast into.1 (admits _ answer) nofun
        refine runsAppend ran (runsAppend tested ?_)
        simp only [Scalar.carry] at held ⊢
        split at held
        · next same =>
          rw [if_pos same]
          exact runsAppend held runsJump
        · next other =>
          rw [if_neg other]
          exact runsError held _

theorem firstAdmits (operands : ∀ i ∈ items, ∀ x, r i = .ok x → (c i).Admits x)
    (into : ∀ i ∈ items, (c i).kind.Into d.kind) {n : Int} (found : firstOf r items = .ok (some n)) : d.kind.Holds n := by
  induction items with
  | nil => cases found
  | cons i is ih =>
    rw [List.forall_mem_cons] at operands into
    rw [firstOf] at found
    cases answer : r i with
    | error f =>
      rw [answer] at found
      contradiction
    | ok x =>
      rw [answer] at found
      cases x with
      | none => exact ih operands.2 into.2 found
      | some m =>
        cases found
        exact (operands.1 _ answer).into into.1

theorem firstPresent (operands : ∀ i ∈ items, ∀ x, r i = .ok x → (c i).Admits x)
    (present : ∃ i ∈ items, (c i).form ≠ .nullable) : firstOf r items ≠ .ok none := by
  induction items with
  | nil => simp at present
  | cons i is ih =>
    rw [List.forall_mem_cons] at operands
    intro none
    rw [firstOf] at none
    cases answer : r i with
    | error f =>
      rw [answer] at none
      contradiction
    | ok x =>
      rw [answer] at none
      cases x with
      | some m => cases none
      | none =>
        obtain ⟨j, inside, never⟩ := present
        obtain rfl | later := List.mem_cons.1 inside
        · exact never (operands.1 _ answer)
        · exact ih operands.2 ⟨j, later, never⟩ none

theorem eachOffer {t : Ty} (each : Each (fun i => Offers (K i) t (type i) done σ) items X) {i : ι} (inside : i ∈ items) :
    ∃ B, K i σ B := by
  induction items generalizing X with
  | nil => contradiction
  | cons j js ih =>
    obtain ⟨_, _, ⟨B, _, _, _, shape, _, _⟩, rest, _⟩ := each
    obtain rfl | later := List.mem_cons.1 inside
    · exact ⟨B, shape⟩
    · exact ih rest later

theorem coalescedYields (operands : ∀ i ∈ items, type i = (c i).type ∧ ∀ B, K i σ B → θ.Yields ls B (c i) (r i))
    (into : ∀ i ∈ items, (c i).kind.Into d.kind) (last : (∃ i ∈ items, (c i).form ≠ .nullable) ∨ d.form = .nullable)
    {tail : Asm} (closing : tail = [] ∧ (∃ i ∈ items, (c i).form ≠ .nullable) ∨ tail = [.op .constNull])
    (each : Each (fun i => Offers (K i) d.type (type i) done σ) items B) :
    θ.Yields ls (B ++ tail ++ [.mark done]) d (firstOf (fun i => r i >>= d.carry (c i)) items) := by
  have admitted : ∀ i ∈ items, ∀ x, (r i >>= d.carry (c i)) = .ok x → (c i).Admits x := by
    intro i inside x is
    obtain ⟨C, shape⟩ := eachOffer each inside
    exact ((operands i inside).2 C shape).admits x (Scalar.carriedSame is)
  constructor
  · intro x is
    cases x with
    | none => exact last.resolve_left fun present => firstPresent admitted present is
    | some n => exact firstAdmits admitted into is
  · intro w s
    have offered := offersRun (θ := θ) (w := w) (s := s) operands into each
    cases answer : firstOf (fun i => r i >>= d.carry (c i)) items with
    | error f =>
      rw [answer] at offered
      rw [List.append_assoc]
      exact runsError offered _
    | ok x =>
      rw [answer] at offered
      cases x with
      | some n => exact runsLand (Z := []) offered runsNil
      | none =>
        obtain ⟨_, present⟩ | rfl := closing
        · exact absurd answer (firstPresent admitted present)
        · rw [List.append_assoc]
          exact runsAppend offered (runsOp (t := .null :: s) rfl (runsMark runsNil))

end

/-! ### Leaves of a tree -/

theorem nullYields (p : Prim) : θ.Yields ls [.op .constNull] ⟨p, .nullable⟩ (.ok none) := by
  constructor
  · rintro _ ⟨⟩
    rfl
  · intro w s
    exact runsOp (t := .null :: s) rfl runsNil

theorem constYields {p : Prim} {n : Int} (holds : p.Holds n) :
    θ.Yields ls [.op (.const (p.raw n))] ⟨p, .raw⟩ (.ok (some n)) := by
  constructor
  · rintro _ ⟨⟩
    exact holds
  · intro w s
    exact runsOp rfl runsNil

theorem readYields {l : Local} {x : Option Int} (type : l.type = c.type) (admits : c.Admits x)
    (held : ∀ slot, σ.Holds l slot → ls[slot]? = some (c.value x)) (read : Read l σ X) : θ.Yields ls X c (.ok x) := by
  obtain ⟨slot, holds, rfl⟩ := read
  constructor
  · rintro _ ⟨⟩
    exact admits
  · intro w s
    refine runsOp (t := push (c.value x) s) ?_ runsNil
    have there : (ls[slot]?).getD .null = c.value x := by rw [held slot holds]; rfl
    have wide : c.type.width = 2 ↔ (c.value x).width = 2 := by
      obtain ⟨p, form⟩ := c
      cases x with
      | none =>
        cases admits
        exact Iff.rfl
      | some n =>
        cases form with
        | raw => rw [show Scalar.value ⟨p, .raw⟩ (some n) = p.raw n from rfl, Prim.rawWidth admits]; rfl
        | _ => exact Iff.rfl
    unfold Local.loadAt
    rw [type]
    split
    · change some (Except.ok (Next.next (push ((ls[slot]?).getD .null) s) ls)) = _
      rw [there]
    · next narrow =>
      change some (Except.ok (Next.next ((ls[slot]?).getD .null :: s) ls)) = _
      rw [there, push, if_neg (mt wide.2 narrow)]

end Machine.Thread

end QueryMachine
