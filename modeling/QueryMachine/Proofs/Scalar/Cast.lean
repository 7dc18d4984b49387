import QueryMachine.Proofs.Scalar.Formula

/-! Casts of integers and booleans to other kinds, beside the tests of them. A cast to an integer kind cuts a number to the
width of the kind; a cast to boolean looks at the low 32 bits, where a test looks at the whole number. -/
namespace QueryMachine

open Machine
open Conversion

namespace Prim

def cut : Prim → Int → Int
  | boolean, n => ofTruth (decide (¬ (2 ^ 32 : Int) ∣ n))
  | q, n => q.wrap n

variable {p q : Prim} {n : Int} {s : Stack}

theorem wholeIs (whole : q.isWhole) : q.isInteger ∨ q = .boolean := by
  rw [isWhole, Bool.or_eq_true, beq_iff_eq] at whole
  exact whole

theorem cutInteger (integer : q.isInteger) (n : Int) : q.cut n = q.wrap n := by
  cases q <;> first | rfl | contradiction

theorem cutHolds (whole : q.isWhole) (n : Int) : q.Holds (q.cut n) := by
  obtain integer | rfl := wholeIs whole
  · rw [cutInteger integer]
    exact wrapHolds integer n
  · exact truthAdmits _

theorem cutSame (whole : q.isWhole) (holds : q.Holds n) : q.cut n = n := by
  obtain integer | rfl := wholeIs whole
  · rw [cutInteger integer, wrapSame integer holds]
  · obtain rfl | rfl := holds <;> decide

theorem int32Dvd (n : Int) : (Int32.ofInt n == 0) = decide ((2 ^ 32 : Int) ∣ n) := by
  rw [Bool.eq_iff_iff, beq_iff_eq, ← Int32.toInt_inj, Int32.toInt_ofInt, decide_eq_true_iff]
  exact Int.dvd_iff_bmod_eq_zero.symm

theorem narrowCuts (whole : q.isWhole) (narrow : q ≠ .int64) (n : Int) :
    Number.narrow q (.ofInt n) = .ofInt (q.cut n) := by
  cases q with
  | boolean =>
    change (if Int32.ofInt n == 0 then (0 : Int32) else 1) = .ofInt (ofTruth (decide (¬ (2 ^ 32 : Int) ∣ n)))
    rw [int32Dvd, decide_not]
    cases decide ((2 ^ 32 : Int) ∣ n) <;> rfl
  | int8 => exact narrowOfInt (.inl rfl) n
  | int16 => exact narrowOfInt (.inr rfl) n
  | int32 => exact (int32OfWrap n).symm
  | _ => contradiction

theorem shortenPerforms (n : Int) : Performs [.convert .long .int] (push (.long (.ofInt n)) s) (.ok (.int (.ofInt n) :: s)) := by
  refine .next ?_ .done
  intro h m ls
  rw [← Int64.toInt32_ofInt]
  rfl

theorem narrowsPerforms (whole : q.isWhole) (narrow : q ≠ .int64) (n : Int) :
    Performs [.narrow q] (.int (.ofInt n) :: s) (.ok (.int (.ofInt (q.cut n)) :: s)) := by
  refine .next ?_ .done
  intro h m ls
  rw [← narrowCuts whole narrow]
  rfl

theorem cutPerforms (holds : p.Holds n) (whole : q.isWhole) :
    Performs (primitive p q) (push (p.raw n) s) (.ok (push (q.raw (q.cut n)) s)) := by
  have kept (into : p.Into q) : Performs (primitive p q) (push (p.raw n) s) (.ok (push (q.raw (q.cut n)) s)) := by
    rw [cutSame whole (holds.into into)]
    exact primitivePerforms holds into
  have narrowed := narrowsPerforms (s := s) whole
  cases p with
  | float32 => exact holds.elim
  | float64 => exact holds.elim
  | int64 =>
    cases q with
    | int64 => exact kept (.inl rfl)
    | int32 =>
      change Performs [.convert .long .int] _ (.ok (.int (.ofInt (Prim.int32.wrap n)) :: s))
      rw [int32OfWrap]
      exact shortenPerforms n
    | float32 => contradiction
    | float64 => contradiction
    | _ => exact (shortenPerforms n).append (narrowed nofun n)
  | boolean =>
    -- Zero and one are numbers of every kind, though no boolean is an integer.
    have held : q.Holds n := by
      obtain rfl | rfl := holds <;> cases q <;> first | contradiction | simp [Holds]
    rw [cutSame whole held]
    cases q with
    | int64 => exact widenPerforms holds nofun
    | float32 => contradiction
    | float64 => contradiction
    | _ => exact .done
  | int8 =>
    cases q with
    | boolean => exact narrowed nofun n
    | float32 => contradiction
    | float64 => contradiction
    | _ => exact kept (.inr (by decide))
  | int16 =>
    cases q with
    | boolean => exact narrowed nofun n
    | int8 => exact narrowed nofun n
    | float32 => contradiction
    | float64 => contradiction
    | _ => exact kept (.inr (by decide))
  | int32 =>
    cases q with
    | boolean => exact narrowed nofun n
    | int8 => exact narrowed nofun n
    | int16 => exact narrowed nofun n
    | float32 => contradiction
    | float64 => contradiction
    | _ => exact kept (.inr (by decide))

end Prim

namespace Scalar

variable {c : Scalar} {q : Prim} {n : Int} {s : Stack}

/-- What a cast to a kind makes of a scalar: a box where the scalar may be missing. -/
def castTo (c : Scalar) (q : Prim) : Scalar := ⟨q, if c.isNullable then .nullable else .raw⟩

theorem cutPerforms (holds : c.kind.Holds n) (whole : q.isWhole) :
    Performs (castOps ⟨q, .raw⟩ c) (push (c.value (some n)) s) (.ok (push (q.raw (q.cut n)) s)) := by
  have converted := Prim.cutPerforms (s := s) holds whole
  obtain ⟨p, form⟩ := c
  have opened : Performs (.unbox p :: primitive p q) (.boxed (p.inBox n) :: s) (.ok (push (q.raw (q.cut n)) s)) :=
    Performs.append (Prim.unboxPerforms holds) converted
  cases form with
  | raw => exact converted
  | boxed => exact opened
  | nullable => exact opened

end Scalar

/-! ### Code -/

namespace Machine.Thread

open Build

variable {θ : Thread} {X : Asm} {ls : List Value} {c : Scalar} {q : Prim} {r : Except Fault (Option Int)}
  {K : Slots → Asm → Prop} {σ : Slots}

theorem cutAdmits {form : Form} (whole : q.isWhole) (null : r = .ok none → form = .nullable) {x : Option Int}
    (is : r.map (·.map q.cut) = .ok x) : Scalar.Admits ⟨q, form⟩ x := by
  cases r with
  | error f => contradiction
  | ok y =>
    cases is
    cases y with
    | none => exact null rfl
    | some n => exact Prim.cutHolds whole n

theorem cutRuns {w : World} {s : Stack} {n : Int} {os : List Op} (is : castOps? (.prim q) c.type = some os)
    (holds : c.kind.Holds n) (whole : q.isWhole) :
    θ.Runs w (Asm.straight os) (push (c.value (some n)) s) ls (.ok (.on (push (q.raw (q.cut n)) s) ls)) := by
  cases is.symm.trans (Scalar.castIs ⟨q, .raw⟩ c)
  exact runsStraight (Scalar.cutPerforms holds whole)

theorem cutYields (operand : ∀ B, K σ B → θ.Yields ls B c r) (whole : q.isWhole) (present : c.form ≠ .nullable)
    (converted : Converted K (.prim q) c.type σ X) : θ.Yields ls X ⟨q, .raw⟩ (r.map (·.map q.cut)) := by
  obtain ⟨B, os, shape, cast, rfl⟩ := converted
  obtain ⟨admits, runs⟩ := operand B shape
  have never : r ≠ .ok none := fun none => present (admits _ none)
  refine ⟨fun _ => cutAdmits whole fun none => absurd none never, ?_⟩
  · intro w s
    cases r with
    | error f => exact runsError (runs w s) _
    | ok x =>
      cases x with
      | none => exact absurd rfl never
      | some n => exact runsAppend (runs w s) (cutRuns cast (admits _ rfl) whole)

theorem boxedCutYields (operand : ∀ B, K σ B → θ.Yields ls B c r) (whole : q.isWhole)
    (cast : BoxedCast K q c.type σ X) : θ.Yields ls X ⟨q, .nullable⟩ (r.map (·.map q.cut)) := by
  obtain ⟨B, isNull, done, present, os, shape, is, rfl⟩ := cast
  obtain ⟨admits, runs⟩ := operand B shape
  refine ⟨fun _ => cutAdmits whole fun _ => rfl, ?_⟩
  intro w s
  simp only [List.append_assoc]
  cases r with
  | error f => exact runsError (runs w s) _
  | ok x =>
    refine runsAppend (runs w s) ?_
    have tested := nullTestRuns θ w s ls isNull present (admits x rfl)
    cases x with
    | none =>
      have landed := runsLand (Y := Asm.straight os ++ [.op (.box q), .op (.jump done)]) tested
        (runsOp (o := .constNull) (t := .null :: s) rfl (runsMark (l := done) runsNil))
      simp only [List.append_assoc] at landed
      exact landed
    | some n =>
      refine runsAppend tested (runsAppend (cutRuns is (admits _ rfl) whole) ?_)
      have boxed := Prim.boxPerforms (s := s) (Prim.cutHolds whole n)
      have stored : θ.Runs w (Asm.straight [.box q]) _ ls _ := runsStraight boxed
      have closed := runsAppend stored (runsJump (l := done) (X := []))
      exact runsLand (Y := [.mark isNull, .op .constNull]) closed runsNil

end Machine.Thread

/-! ### Expressions -/

namespace Build

variable {x : Expr} {c : Scalar}

theorem checkCastPasses {target source : Ty} {os : List Op} (found : castOps? target source = some os) :
    checkCast target source = pure () := by
  unfold checkCast
  rcases Conversion.castIs target source with ⟨_, _, same⟩ | ⟨none, _⟩
  · rw [same]
    rfl
  · rw [found] at none
    contradiction

theorem castMakes {t : Ty} {os : List Op} (found : castOps? t x.type = some os) (s : Session) :
    ∃ y, Build.cast x t s = (.ok y, s) := by
  have ends : Ends (Build.cast x t) s (fun _ _ => False) fun _ s' => s' = s := by
    unfold Build.cast
    split
    · rw [checkCastPasses ((castNonNull _ _).trans found)]
      rfl
    · rw [checkCastPasses found]
      rfl
  rcases answer : Build.cast x t s with ⟨err | y, s'⟩
  · exact (ends.error answer).elim
  · exact ⟨y, by rw [ends.ok answer]⟩

theorem notMakes (typed : x.type = c.type) (s : Session) : ∃ y, Build.not x s = (.ok y, s) := by
  have passes : checkTruth x.type = pure () := by
    unfold checkTruth
    rw [typed, Scalar.typePrim, Option.isSome_some, Bool.or_true, if_pos rfl]
  unfold Build.not
  rw [passes]
  exact ⟨_, rfl⟩

end Build

namespace Scalar

open Build (notSteady castMakes notMakes)

variable {E : Error → Prop} {knows : String → Prop} {Γ : Frames → Slots → Prop} {K : Slots → Asm → Prop} {x : Expr}
  {c : Scalar} {q : Prim}

/-- Building makes an expression of a scalar, and its code makes of what the code of an operand yields what `f` says. -/
def Yielding (E : Error → Prop) (knows : String → Prop) (Γ : Frames → Slots → Prop) (K : Slots → Asm → Prop) (c : Scalar)
    (make : Build Expr) (d : Scalar) (f : Option Int → Option Int) : Prop :=
  ∀ s, ∃ y K', make s = (.ok y, s) ∧ y.type = d.type ∧ y.Writes E knows Γ K' ∧
    ∀ (θ : Thread) ls σ r X, (∀ B, K σ B → θ.Yields ls B c r) → K' σ X → θ.Yields ls X d (r.map f)

theorem castYielding (writes : x.Writes E knows Γ K) (typed : x.type = c.type) (whole : q.isWhole) :
    Yielding E knows Γ K c (Build.cast x (.prim q)) (c.castTo q) (Option.map q.cut) := by
  intro s
  have found : castOps? (.prim q) x.type = some (castOps ⟨q, .raw⟩ c) := typed ▸ castIs ⟨q, .raw⟩ c
  obtain ⟨y, made⟩ := castMakes found s
  obtain ⟨casts, -⟩ := (castSteady writes .prim s).ok made
  rw [typed, typeNullable] at casts
  rcases casts with ⟨p, nullable, same, type, written⟩ | ⟨present, type, written⟩
  · cases same
    have result : c.castTo q = ⟨q, .nullable⟩ := by rw [castTo, nullable, if_pos rfl]
    rw [result]
    exact ⟨y, _, made, type, written, fun θ ls σ r X operand shape => Thread.boxedCutYields operand whole shape⟩
  · have never : c.isNullable = false := by
      cases nullable : c.isNullable with
      | false => rfl
      | true => exact absurd (present nullable) nofun
    have result : c.castTo q = ⟨q, .raw⟩ := by
      rw [castTo, never]
      rfl
    rw [result]
    refine ⟨y, _, made, type, written, fun θ ls σ r X operand shape => Thread.cutYields operand whole ?_ shape⟩
    intro form
    rw [nullableIff.2 form] at never
    contradiction

theorem notYielding (writes : x.Writes E knows Γ K) (typed : x.type = c.type) :
    Yielding E knows Γ K c (Build.not x) ⟨.boolean, .raw⟩ fun n => some (ofTruth !truth n) := by
  intro s
  obtain ⟨y, made⟩ := notMakes typed s
  obtain ⟨⟨type, written⟩, -⟩ := (notSteady writes s).ok made
  rw [typed] at written
  exact ⟨y, _, made, type, written, fun θ ls σ r X operand shape => Thread.chosenYields operand shape⟩

theorem notTwiceYielding (writes : x.Writes E knows Γ K) (typed : x.type = c.type) :
    Yielding E knows Γ K c (do Build.not (← Build.not x)) ⟨.boolean, .raw⟩ fun n => some (ofTruth (truth n)) := by
  intro s
  obtain ⟨y, K₁, made, type, written, first⟩ := notYielding writes typed s
  obtain ⟨z, K₂, again, typeAgain, writtenAgain, second⟩ := notYielding written type s
  refine ⟨z, K₂, (Build.bindOk made).trans again, typeAgain, writtenAgain, ?_⟩
  intro θ ls σ r X operand shape
  have yields := second θ ls σ _ X (fun B inner => first θ ls σ r B operand inner) shape
  have twice : ∀ n, truth (some (ofTruth !truth n)) = !truth n := by
    intro n
    cases truth n <;> rfl
  cases r with
  | error f => exact yields
  | ok n =>
    simp only [Except.map, twice, Bool.not_not] at yields
    exact yields

/-- A number that is cast to an integer kind is cut to its width. Cast to boolean it is true where its low 32 bits are not
zero; negated twice, or as a test that code branches on, where it is not zero itself. The two differ on multiples of 2^32,
for which it takes 64 bits. -/
theorem castsAndNegations (writes : x.Writes E knows Γ K) (typed : x.type = c.type) :
    (∀ q : Prim, q.isInteger → Yielding E knows Γ K c (Build.cast x (.prim q)) (c.castTo q) (Option.map q.wrap)) ∧
    Yielding E knows Γ K c (Build.cast x .boolean) (c.castTo .boolean)
      (Option.map fun n => ofTruth (decide (¬ (2 ^ 32 : Int) ∣ n))) ∧
    Yielding E knows Γ K c (do Build.not (← Build.not x)) ⟨.boolean, .raw⟩ (fun n => some (ofTruth (truth n))) ∧
    (∀ (θ : Thread) ls σ r l X, (∀ B, K σ B → θ.Yields ls B c r) → Tests K x.type l σ X →
      θ.Branches ls X l (r.map truth)) ∧
    ∀ n, c.kind.Holds n → c.kind ≠ .int64 → (¬ (2 ^ 32 : Int) ∣ n ↔ truth (some n)) := by
  refine ⟨?_, castYielding writes typed rfl, notTwiceYielding writes typed, ?_, ?_⟩
  · intro q integer
    have whole : q.isWhole := by rw [Prim.isWhole, integer, Bool.true_or]
    have cut : q.cut = q.wrap := funext (Prim.cutInteger integer)
    exact cut ▸ castYielding writes typed whole
  · intro θ ls σ r l X operand tests
    exact Thread.testsBranch operand (typed ▸ tests)
  · intro n holds narrow
    obtain ⟨low, high⟩ := holds.int32 narrow
    rw [truth, bne_iff_ne]
    refine not_congr ⟨?_, fun zero => zero ▸ Int.dvd_zero _⟩
    rintro ⟨k, rfl⟩
    omega

def high : Expr := .literal (.long (.ofInt (2 ^ 32))) .int64

theorem highCastsFalse :
    let s := Session.new .default .empty
    ∃ y K z K', Build.cast high .boolean s = (.ok y, s) ∧ (do Build.not (← Build.not high)) s = (.ok z, s) ∧
      y.Writes (fun _ => False) (fun _ => False) (fun _ _ => True) K ∧
      z.Writes (fun _ => False) (fun _ => False) (fun _ _ => True) K' ∧
      ∀ (θ : Thread) ls σ X, (K σ X → θ.Yields ls X ⟨.boolean, .raw⟩ (.ok (some 0))) ∧
        (K' σ X → θ.Yields ls X ⟨.boolean, .raw⟩ (.ok (some 1))) := by
  intro s
  have writes : high.Writes (fun _ => False) (fun _ => False) (fun _ _ => True) (Single (.const (.long (.ofInt (2 ^ 32))))) :=
    literalWrites .prim rfl
  obtain ⟨-, casts, negates, -, -⟩ := castsAndNegations (c := ⟨.int64, .raw⟩) writes rfl
  obtain ⟨y, K, made, -, written, cast⟩ := casts s
  obtain ⟨z, K', negated, -, writtenAgain, twice⟩ := negates s
  refine ⟨y, K, z, K', made, negated, written, writtenAgain, ?_⟩
  intro θ ls σ X
  have operand : ∀ B, Single (.const (.long (.ofInt (2 ^ 32)))) σ B → θ.Yields ls B ⟨.int64, .raw⟩ (.ok (some (2 ^ 32))) := by
    rintro _ rfl
    have holds : Prim.int64.Holds (2 ^ 32) := by simp [Prim.Holds]
    exact Thread.constYields holds
  exact ⟨cast θ ls σ _ X operand, twice θ ls σ _ X operand⟩

end Scalar

end QueryMachine
