import QueryMachine.Proofs.Code.Emission
import QueryMachine.Proofs.Ty.Regular

/-! The code of conversions and null tests, and walks over it. -/
namespace QueryMachine

open Verify (after)
open Emit (Out)

theorem Emit.castAny (t : Ty) : cast .any t = box t := by
  unfold cast
  split
  · next same =>
    cases t with
    | prim p => contradiction
    | _ => rfl
  · rfl

namespace Conversion

def checkOps? (target source : Ty) : Option (List Op) :=
  match target.rep, source.rep with
  | .ref cls, .ref _ => some [.checkCast cls]
  | _, _ => none

def castOps? (target source : Ty) : Option (List Op) :=
  if target.rep = source.rep then some []
  else if target.rep = .object then some (match source with
    | .prim p => [.box p]
    | _ => [])
  else match ops? source.rep target.rep with
    | some os => some os
    | none => match target with
      | .prim p => (checkOps? (.boxedOf p) source).map (· ++ [.unbox p])
      | _ => checkOps? target source

theorem checkCastIs (target source : Ty) :
    (∃ os, checkOps? target source = some os ∧ Emit.checkCast target source = Emit.ops os) ∨
    checkOps? target source = none ∧ ∃ a b, Emit.checkCast target source = Emit.fail (.incompatibleCast a b) := by
  unfold checkOps? Emit.checkCast
  cases target.rep with
  | ref cls =>
    cases source.rep with
    | ref cls' => exact .inl ⟨_, rfl, rfl⟩
    | void => exact .inr ⟨rfl, _, _, rfl⟩
    | prim p => exact .inr ⟨rfl, _, _, rfl⟩
  | void => exact .inr ⟨rfl, _, _, rfl⟩
  | prim p => exact .inr ⟨rfl, _, _, rfl⟩

theorem opsAppend (os os' : List Op) : (do Emit.ops os; Emit.ops os') = Emit.ops (os ++ os') := by
  funext fs e
  change (Except.ok (), { e with ops := e.ops ++ os.toArray ++ os'.toArray }) =
    (.ok (), { e with ops := e.ops ++ (os ++ os').toArray })
  simp

theorem castIs (target source : Ty) :
    (∃ os, castOps? target source = some os ∧ Emit.cast target source = Emit.ops os) ∨
    castOps? target source = none ∧ ∃ a b, Emit.cast target source = Emit.fail (.incompatibleCast a b) := by
  unfold castOps? Emit.cast
  split
  · exact .inl ⟨[], rfl, Emit.opsNil.symm⟩
  · split
    · refine .inl ⟨_, rfl, ?_⟩
      cases source with
      | prim p => rfl
      | _ => exact Emit.opsNil.symm
    · cases ops? source.rep target.rep with
      | some os => exact .inl ⟨os, rfl, rfl⟩
      | none =>
        cases target with
        | prim p =>
          rcases checkCastIs (.boxedOf p) source with ⟨os, is, same⟩ | ⟨is, a, b, same⟩
          · refine .inl ⟨os ++ [.unbox p], by simp [is], ?_⟩
            simp only [same, opsAppend]
          · refine .inr ⟨by simp [is], a, b, ?_⟩
            simp only [same]
            rfl
        | _ => exact checkCastIs _ source

theorem plainConvert (s t : Num) : Op.Plain (.convert s t) := ⟨rfl, rfl, rfl, rfl⟩

theorem primitiveStraight (s t : Prim) : Straight (primitive s t) s.width t.width := by
  cases s <;> cases t <;> simp [primitive, Prim.num, Prim.width, Num.width, Straight, Op.effect, after, Prim.kind,
    Kind.rank, plainConvert] <;> exact ⟨rfl, rfl, rfl, rfl⟩

theorem boxOfWidth {r : Rep} {p : Prim} (is : boxOf? r = some p) : r.width = 1 := by
  cases r with
  | ref cls => rfl
  | void => contradiction
  | prim q => contradiction

theorem opsStraight {source target : Rep} {os : List Op} (is : ops? source target = some os) :
    Straight os source.width target.width := by
  unfold ops? at is
  split at is
  · cases is
    exact primitiveStraight _ _
  · rw [Option.map_eq_some_iff] at is
    obtain ⟨t, box, rfl⟩ := is
    rw [boxOfWidth box]
    refine straightAppend (primitiveStraight _ t) ⟨⟨rfl, rfl, rfl, rfl⟩, Nat.le_refl _, ?_⟩
    simp [Straight, after, Op.effect]
  · rw [Option.map_eq_some_iff] at is
    obtain ⟨s, box, rfl⟩ := is
    rw [boxOfWidth box]
    refine ⟨⟨rfl, rfl, rfl, rfl⟩, Nat.le_refl _, ?_⟩
    have same : after (.unbox s) 1 = s.width := by simp [after, Op.effect]
    rw [same]
    exact primitiveStraight s _
  · contradiction

theorem checkStraight {target source : Ty} {os : List Op} (is : checkOps? target source = some os) :
    Straight os source.width target.width := by
  unfold checkOps? at is
  unfold Ty.width
  split at is
  · next cls cls' t s =>
    cases is
    rw [t, s]
    exact ⟨⟨rfl, rfl, rfl, rfl⟩, Nat.le_refl _, rfl⟩
  · contradiction

theorem castStraight {target source : Ty} {os : List Op} (sized : source ≠ .void)
    (is : castOps? target source = some os) : Straight os source.width target.width := by
  unfold castOps? at is
  split at is
  · next same =>
    cases is
    exact congrArg Rep.width same.symm
  · split at is
    · next object =>
      cases is
      have wide : target.width = 1 := congrArg Rep.width object
      rw [wide]
      by_cases prim : ∃ p, source = .prim p
      · obtain ⟨p, rfl⟩ := prim
        exact ⟨⟨rfl, rfl, rfl, rfl⟩, Nat.le_refl _, by simp [Straight, after, Op.effect, Ty.width, Ty.rep, Rep.width]⟩
      · cases source with
        | prim p => exact absurd ⟨p, rfl⟩ prim
        | _ => exact Ty.referenceWidth sized rfl
    · split at is
      · next os' ops =>
        cases is
        exact opsStraight ops
      · split at is
        · next p =>
          rw [Option.map_eq_some_iff] at is
          obtain ⟨check, found, rfl⟩ := is
          refine straightAppend (checkStraight found) ⟨⟨rfl, rfl, rfl, rfl⟩, Nat.le_refl _, ?_⟩
          simp [Straight, after, Op.effect, Ty.boxedOf, Ty.width, Ty.rep, Rep.width]
        · exact checkStraight is

end Conversion

open Conversion

/-! ### What is written -/

namespace Asm

def nullTest (t : Ty) (isNull done : Label) : Asm :=
  if t.isNullable then
    [.op (.dup 1), .op (.ifNonNull done), .op (.pop 1), .op (.jump isNull), .mark done]
  else []

def straight (os : List Op) : Asm := os.map .op

def choice (first second : Int32) (other done : Label) : Asm :=
  [.op (.const (.int first)), .op (.jump done), .mark other, .op (.const (.int second)), .mark done]

end Asm

namespace Walk

variable {knows : String → Prop} {mode : Option Nat} {fs : Frames} {e₀ e : Emitter} {σ : Slots} {A : Asm}
  {Λ : List (Label × Nat)} {W : Label → Prop} {c : Option Nat} {k : Nat} {E : Error → Prop} {Q : Unit → Emitter → Prop}

theorem closed {l : Label} {j : Nat} (walk : Walk knows mode e₀ e σ A ((l, j) :: Λ) (fun x => (x = l ∨ W x) ∧ x ≠ l) c)
    (fresh : ¬ W l) : Walk knows mode e₀ e σ A Λ W c := by
  refine walk.forget (List.subset_cons_self _ _) ?_
  intro x
  constructor
  · intro h
    exact h.1.resolve_left h.2
  · intro waits
    exact ⟨.inr waits, fun h => fresh (h ▸ waits)⟩

theorem closedTwo {l l' : Label} {j j' : Nat}
    (walk : Walk knows mode e₀ e σ A ((l', j') :: (l, j) :: Λ) (fun x => ((x = l' ∨ x = l ∨ W x) ∧ x ≠ l) ∧ x ≠ l') c)
    (fresh : ¬ W l) (fresh' : ¬ (l' = l ∨ W l')) : Walk knows mode e₀ e σ A Λ W c := by
  refine walk.forget (List.subset_cons_of_subset _ (List.subset_cons_self _ _)) ?_
  intro x
  constructor
  · intro h
    exact (h.1.1.resolve_left h.2).resolve_left h.1.2
  · intro waits
    exact ⟨⟨.inr (.inr waits), fun h => fresh (h ▸ waits)⟩, fun h => fresh' (.inr (h ▸ waits))⟩

theorem outNullTest {t : Ty} {isNull : Label} {Q : Bool → Emitter → Prop}
    (walk : Walk knows mode e₀ e σ A Λ W (some (k + t.width))) (made : t.isNullable = true → (isNull, k) ∈ Λ)
    (next : ∀ e' done, Walk knows mode e₀ e' σ (A ++ Asm.nullTest t isNull done) Λ W (some (k + t.width)) →
      Q t.isNullable e') : Out (Emit.nullTest t isNull) fs e E Q := by
  unfold Emit.nullTest
  by_cases nullable : t.isNullable = true
  · have width := Ty.nullableWidth nullable
    rw [nullable, width] at next
    rw [width] at walk
    simp only [nullable, Bool.not_true, Bool.false_eq_true, if_false, Emit.dup, Emit.pop, width, Nat.one_ne_zero,
      Emit.outBind]
    refine walk.outLabel (k + 1) ?_
    intro done e₁ fresh walk
    refine walk.outPlain ⟨rfl, rfl, rfl, rfl⟩ (Nat.le_add_left 1 k) ?_
    intro e₂ walk
    refine Walk.outIfNonNull (k := k + 1) walk List.mem_cons_self ?_
    intro e₃ walk
    refine walk.outPlain ⟨rfl, rfl, rfl, rfl⟩ (Nat.le_add_left 1 k) ?_
    intro e₄ walk
    refine Walk.outJump (k := k) walk (List.mem_cons_of_mem _ (made nullable)) ?_
    intro e₅ walk
    refine walk.outMark (.inl rfl) List.mem_cons_self (.inl rfl) ?_
    intro e₆ walk
    refine next e₆ done ?_
    have done := walk.closed fresh
    simpa [Asm.nullTest, nullable] using done
  · rw [Bool.not_eq_true] at nullable
    rw [nullable] at next
    simp only [nullable, Bool.not_false, if_true, Emit.outPure]
    refine next e 0 ?_
    simpa [Asm.nullTest, nullable] using walk

theorem outCast {target source : Ty} (walk : Walk knows mode e₀ e σ A Λ W (some (k + source.width)))
    (sized : source ≠ .void) (may : castOps? target source = none → ∀ a b, E (.of (.incompatibleCast a b)))
    (next : ∀ e' os, castOps? target source = some os →
      Walk knows mode e₀ e' σ (A ++ Asm.straight os) Λ W (some (k + target.width)) → Q () e') :
    Out (Emit.cast target source) fs e E Q := by
  rcases castIs target source with ⟨os, is, same⟩ | ⟨is, a, b, same⟩
  · rw [same]
    exact walk.outStraight (straightAbove k (castStraight sized is)) fun e' walk => next e' os is walk
  · rw [same, Emit.outFail]
    exact may is a b

end Walk

theorem Emit.castOrNullIs (target source : Ty) (isNull : Label) :
    Emit.castOrNull target source isNull = (do
      let tested ← Emit.nullTest source isNull
      Emit.cast target source
      return tested) := by
  unfold Emit.castOrNull Emit.cast
  split
  · simp
  · split
    · cases source with
      | prim p => rfl
      | _ => simp [Ty.isPrimitive, Emit.box]
    · split
      · rfl
      · rfl

def Asm.box : Ty → Asm
  | .prim p => [.op (.box p)]
  | _ => []

def Asm.downcast (t : Ty) : Asm :=
  if t.isAny || t.prim?.isSome then []
  else match t.rep with
    | .ref cls => [.op (.checkCast cls)]
    | _ => []

def Ty.truth? (t : Ty) : Option Prim := if t.isAny then some .boolean else t.prim?

def zeroOps (p : Prim) : List Op := if p.num = .int then [] else [.const (Emit.zero p.num), .cmp p.num]

theorem truthCast {t : Ty} {p : Prim} (truth : t.truth? = some p) :
    t ≠ .void ∧ ∃ os, castOps? (.prim p) t = some os := by
  unfold Ty.truth? at truth
  split at truth
  · next any =>
    cases truth
    refine ⟨fun h => by rw [h] at any; contradiction, ?_⟩
    cases t with
    | atom n a =>
      cases a with
      | any => exact ⟨_, rfl⟩
      | _ => contradiction
    | _ => contradiction
  · cases t with
    | prim q =>
      cases truth
      exact ⟨nofun, [], if_pos rfl⟩
    | atom n a =>
      cases a with
      | boxed q =>
        cases truth
        refine ⟨nofun, ?_⟩
        cases p <;> exact ⟨_, rfl⟩
      | _ => contradiction
    | _ => contradiction

namespace Walk

variable {knows : String → Prop} {mode : Option Nat} {fs : Frames} {e₀ e : Emitter} {σ : Slots} {A : Asm}
  {Λ : List (Label × Nat)} {W : Label → Prop} {c : Option Nat} {k : Nat} {E : Error → Prop} {Q : Unit → Emitter → Prop}

theorem outCastOrNull {target source : Ty} {isNull : Label} {Q : Bool → Emitter → Prop}
    (walk : Walk knows mode e₀ e σ A Λ W (some (k + source.width))) (sized : source ≠ .void)
    (made : source.isNullable = true → (isNull, k) ∈ Λ)
    (may : castOps? target source = none → ∀ a b, E (.of (.incompatibleCast a b)))
    (next : ∀ e' done os, castOps? target source = some os →
      Walk knows mode e₀ e' σ (A ++ Asm.nullTest source isNull done ++ Asm.straight os) Λ W
        (some (k + target.width)) → Q source.isNullable e') :
    Out (Emit.castOrNull target source isNull) fs e E Q := by
  rw [Emit.castOrNullIs]
  simp only [Emit.outBind, Emit.outPure]
  refine walk.outNullTest made ?_
  intro e₁ done walk
  refine walk.outCast sized may ?_
  intro e₂ os is walk
  exact next e₂ done os is walk

theorem zeroStraight (p : Prim) : Straight (zeroOps p) p.width 1 := by
  cases p <;> simp [zeroOps, Prim.num, Straight, Prim.width, Num.width, Op.effect, after, Emit.zero, Value.width] <;>
    exact ⟨⟨rfl, rfl, rfl, rfl⟩, ⟨rfl, rfl, rfl, rfl⟩⟩

theorem outTruth {t : Ty} {p : Prim} {isFalse : Label} (truth : t.truth? = some p)
    (walk : Walk knows mode e₀ e σ A Λ W (some (k + t.width))) (made : (isFalse, k) ∈ Λ)
    (next : ∀ e' done os, castOps? (.prim p) t = some os →
      Walk knows mode e₀ e' σ (A ++ Asm.nullTest t isFalse done ++ Asm.straight os ++ Asm.straight (zeroOps p) ++
        [.op (.ifZero .eq isFalse)]) Λ W (some k) → Q () e') :
    Out (if t.isAny then do
        let _ ← Emit.castOrNull .boolean t isFalse
        Emit.op (.ifZero .eq isFalse)
      else Emit.testFalse t isFalse) fs e E Q := by
  obtain ⟨sized, converts⟩ := truthCast truth
  have same : (if t.isAny then do
        let _ ← Emit.castOrNull .boolean t isFalse
        Emit.op (.ifZero .eq isFalse)
      else Emit.testFalse t isFalse) = (do
        let _ ← Emit.castOrNull (.prim p) t isFalse
        Emit.ops (zeroOps p)
        Emit.op (.ifZero .eq isFalse)) := by
    unfold Ty.truth? at truth
    split at truth
    · next any =>
      cases truth
      rw [if_pos any, show zeroOps .boolean = [] from rfl, Emit.opsNil]
      simp [Ty.boolean]
    · next other =>
      rw [if_neg other]
      unfold Emit.testFalse
      rw [truth]
      cases prim : t.isPrimitive with
      | false => cases p <;> simp [zeroOps, Prim.num, Emit.opsNil, Emit.opsCons]
      | true =>
        have is : t = .prim p := by
          cases t with
          | prim q =>
            cases truth
            rfl
          | _ => contradiction
        cases p <;>
          simp [is, zeroOps, Prim.num, Emit.opsNil, Emit.opsCons, Emit.castOrNullIs, Emit.nullTest, Ty.isNullable,
            Emit.cast]
  rw [same]
  simp only [Emit.outBind]
  refine walk.outCastOrNull sized (fun _ => made) ?_ ?_
  · intro fails
    obtain ⟨os, is⟩ := converts
    rw [is] at fails
    contradiction
  · intro e₁ done os is walk
    refine walk.outStraight (straightAbove k (zeroStraight p)) ?_
    intro e₂ walk
    refine walk.outIfZero made ?_
    intro e₃ walk
    exact next e₃ done os is walk

theorem outBox {t : Ty} (sized : t ≠ .void) (walk : Walk knows mode e₀ e σ A Λ W (some (k + t.width)))
    (next : ∀ e', Walk knows mode e₀ e' σ (A ++ Asm.box t) Λ W (some (k + 1)) → Q () e') :
    Out (Emit.box t) fs e E Q := by
  cases t with
  | prim p =>
    refine walk.outPlain ⟨rfl, rfl, rfl, rfl⟩ (Nat.le_add_left _ k) ?_
    intro e' walk
    refine next e' ?_
    simpa [Asm.box, after, Op.effect, Ty.widthPrim] using walk
  | void => contradiction
  | _ =>
    refine next e ?_
    rw [Ty.referenceWidth sized rfl] at walk
    simpa [Asm.box] using walk

theorem outDowncast {t : Ty} (walk : Walk knows mode e₀ e σ A Λ W (some (k + 1)))
    (next : ∀ e', Walk knows mode e₀ e' σ (A ++ Asm.downcast t) Λ W (some (k + 1)) → Q () e') :
    Out (Emit.downcast t) fs e E Q := by
  unfold Emit.downcast
  unfold Asm.downcast at next
  split
  · next open_ =>
    rw [if_pos open_] at next
    exact next e (by simpa using walk)
  · next narrow =>
    rw [if_neg narrow] at next
    cases rep : t.rep with
    | ref cls =>
      rw [rep] at next
      exact walk.outPlain ⟨rfl, rfl, rfl, rfl⟩ (Nat.le_add_left 1 k) next
    | void =>
      rw [rep] at next
      exact next e (by simpa using walk)
    | prim p =>
      rw [rep] at next
      exact next e (by simpa using walk)

end Walk

end QueryMachine
