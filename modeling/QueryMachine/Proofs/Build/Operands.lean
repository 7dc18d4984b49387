import QueryMachine.Build.Arithmetic
import QueryMachine.Build.Comparison
import QueryMachine.Proofs.Build.Logic

/-! Two operands at one type, arithmetic and comparison: each builder writes a walk. -/
namespace QueryMachine

open Emit (Out)
open Conversion
open Verify (after)

variable {E : Error → Prop} {knows : String → Prop} {Γ : Frames → Slots → Prop} {K K' : Slots → Asm → Prop}

namespace Operands

structure Exits where
  left : Label
  right : Label
  both : Label

def Exits.apart (x : Exits) (right : Ty) : Bool := x.left != x.both && right.isNullable

def Between (K' : Slots → Asm → Prop) (x : Exits) (left right : Ty) (l : Label) (σ : Slots) (X : Asm) : Prop :=
  if x.apart right then
    if left.isNullable then ∃ B skip, K' σ B ∧ X = [.op (.jump skip), .mark l] ++ B ++
      [.op (.ifNull x.both), .op (.jump x.left), .mark skip]
    else X = [.mark l]
  else l = x.left ∧ X = []

def Beyond (x : Exits) (type right : Ty) (drop : Label) (X : Asm) : Prop :=
  if right.isNullable then ∃ done, X = [.op (.jump done), .mark drop, .op (.pop type.width), .op (.jump x.right), .mark done]
  else X = [.mark drop]

def Both (K K' : Slots → Asm → Prop) (x : Exits) (type left right : Ty) (σ : Slots) (X : Asm) : Prop :=
  ∃ L M R N l drop dl dr ls rs, K σ L ∧ castOps? type left = some ls ∧ Between K' x left right l σ M ∧ K' σ R ∧
    castOps? type right = some rs ∧ Beyond x type right drop N ∧
    X = L ++ Asm.nullTest left l dl ++ Asm.straight ls ++ M ++ R ++ Asm.nullTest right drop dr ++ Asm.straight rs ++ N

variable {mode : Option Nat} {fs : Frames} {e₀ e : Emitter} {σ : Slots} {A : Asm} {Λ : List (Label × Nat)}
  {W : Label → Prop}

theorem outRight {type : Ty} {right : Expr} {x : Exits} {tested : Bool} {Q : Bool → Emitter → Prop}
    (writes : right.Writes E knows Γ K) (sized : type ≠ .void)
    (may : castOps? type right.type = none → ∀ a b, E (.of (.incompatibleCast a b))) (visible : Γ fs σ)
    (walk : Walk knows mode e₀ e σ A Λ W (some type.width)) (made : right.type.isNullable = true → (x.right, 0) ∈ Λ)
    (next : ∀ e' R N drop present os, K σ R → castOps? type right.type = some os → Beyond x type right.type drop N →
      Walk knows mode e₀ e' σ (A ++ R ++ Asm.nullTest right.type drop present ++ Asm.straight os ++ N) Λ W
        (some (type.width + type.width)) → Q (tested || right.type.isNullable) e') :
    Out (do
      let drop ← Emit.newLabel
      right.generate
      let rightTested ← Emit.castOrNull type right.type drop
      if rightTested then
        let done ← Emit.newLabel
        Emit.jump done
        Emit.mark drop
        Emit.pop type
        Emit.jump x.right
        Emit.mark done
      else Emit.mark drop
      return tested || rightTested) fs e E Q := by
  unfold Beyond at next
  simp only [Emit.outBind]
  refine walk.outLabel (if right.type.isNullable then type.width else type.width + type.width) ?_
  intro drop e₁ fresh walk
  refine walk.outPart writes.emits visible ?_
  intro e₂ R shape walk
  refine walk.outCastOrNull writes.regular.sized (by intro nullable; simp [nullable]) may ?_
  intro e₃ present os is walk
  cases nullable : right.type.isNullable with
  | false =>
    simp only [nullable, Bool.false_eq_true, if_false, Emit.outBind, Emit.outPure] at walk next ⊢
    refine walk.outMark (.inl rfl) List.mem_cons_self (.inr rfl) ?_
    intro e₄ walk
    exact next e₄ R _ drop present os shape is rfl (walk.closed fresh)
  | true =>
    have positive := Ty.widthPos sized
    simp only [nullable, if_true, Emit.outBind, Emit.outPure, Emit.pop, Nat.ne_of_gt positive, if_false] at walk next ⊢
    refine walk.outLabel (type.width + type.width) ?_
    intro done e₄ fresh' walk
    refine walk.outJump List.mem_cons_self ?_
    intro e₅ walk
    refine walk.outMark (.inr (.inl rfl)) (List.mem_cons_of_mem _ List.mem_cons_self) (.inl rfl) ?_
    intro e₆ walk
    refine walk.outPlain ⟨rfl, rfl, rfl, rfl⟩ (Nat.le_refl _) ?_
    intro e₇ walk
    have zero : after (.pop type.width) type.width = 0 := by simp [after, Op.effect]
    rw [zero] at walk
    refine walk.outJump (by simp [made nullable]) ?_
    intro e₈ walk
    refine walk.outMark ⟨.inl rfl, fun h => fresh' (.inl h)⟩ List.mem_cons_self (.inl rfl) ?_
    intro e₉ walk
    exact next e₉ R _ drop present os shape is ⟨done, rfl⟩ (by simpa using walk.closedTwo fresh fresh')

theorem outBoth {type : Ty} {left right : Expr} {x : Exits} {Q : Bool → Emitter → Prop}
    (leftWrites : left.Writes E knows Γ K) (rightWrites : right.Writes E knows Γ K') (sized : type ≠ .void)
    (mayLeft : castOps? type left.type = none → ∀ a b, E (.of (.incompatibleCast a b)))
    (mayRight : castOps? type right.type = none → ∀ a b, E (.of (.incompatibleCast a b))) (visible : Γ fs σ)
    (walk : Walk knows mode e₀ e σ A Λ W (some 0)) (madeLeft : left.type.isNullable = true → (x.left, 0) ∈ Λ)
    (madeRight : right.type.isNullable = true → (x.right, 0) ∈ Λ)
    (madeBoth : left.type.isNullable = true → (x.both, 0) ∈ Λ)
    (next : ∀ e' B, Both K K' x type left.type right.type σ B →
      Walk knows mode e₀ e' σ (A ++ B) Λ W (some (type.width + type.width)) →
        Q (left.type.isNullable || right.type.isNullable) e') :
    Out (generateAs type left right x.left x.right x.both) fs e E Q := by
  unfold generateAs
  rw [Emit.outBind]
  refine walk.outPart leftWrites.emits visible ?_
  intro e₁ L leftShape walk
  cases apart : (x.left != x.both && right.type.isNullable) with
  | false =>
    simp only [Bool.false_eq_true, if_false, Bool.and_false]
    rw [Emit.outBind, Emit.outPure, Emit.outBind]
    refine walk.outCastOrNull leftWrites.regular.sized madeLeft mayLeft ?_
    intro e₂ present ls isLeft walk
    rw [Nat.zero_add] at walk
    refine outRight rightWrites sized mayRight visible walk madeRight ?_
    intro e₃ R N drop present' rs rightShape isRight beyond walk
    refine next e₃ _ ⟨L, [], R, N, x.left, drop, present, present', ls, rs, leftShape, isLeft, ?_, rightShape, isRight,
      beyond, rfl⟩ (by simpa using walk)
    simp [Between, Exits.apart, apart]
  | true =>
    simp only [if_true, Bool.and_true]
    rw [Emit.outBind]
    refine walk.outLabel (if left.type.isNullable then 0 else type.width) ?_
    intro l e₂ fresh walk
    rw [Emit.outBind]
    refine walk.outCastOrNull leftWrites.regular.sized (by intro nullable; simp [nullable]) mayLeft ?_
    intro e₃ present ls isLeft walk
    rw [Nat.zero_add] at walk
    cases nullable : left.type.isNullable with
    | false =>
      rw [nullable] at walk next
      simp only [Bool.false_eq_true, if_false]
      rw [Emit.outBind]
      refine walk.outMark (.inl rfl) List.mem_cons_self (.inr rfl) ?_
      intro e₄ walk
      refine outRight rightWrites sized mayRight visible (walk.closed fresh) madeRight ?_
      intro e₅ R N drop present' rs rightShape isRight beyond walk
      refine next e₅ _ ⟨L, [.mark l], R, N, l, drop, present, present', ls, rs, leftShape, isLeft, ?_, rightShape, isRight,
        beyond, rfl⟩ (by simpa using walk)
      simp [Between, Exits.apart, apart, nullable]
    | true =>
      rw [nullable] at walk next
      simp only [if_true]
      rw [Emit.outBind]
      refine walk.outLabel type.width ?_
      intro skip e₄ fresh' walk
      rw [Emit.outBind]
      refine walk.outJump List.mem_cons_self ?_
      intro e₅ walk
      rw [Emit.outBind]
      refine walk.outMark (.inr (.inl rfl)) (List.mem_cons_of_mem _ List.mem_cons_self) (.inl rfl) ?_
      intro e₆ walk
      rw [Emit.outBind]
      refine walk.outPart rightWrites.emits visible ?_
      intro e₇ B againShape walk
      rw [Bool.and_eq_true] at apart
      rw [Ty.nullableWidth apart.2] at walk
      rw [Emit.outBind]
      refine walk.outIfNull (by simp [madeBoth nullable]) ?_
      intro e₈ walk
      rw [Emit.outBind]
      refine walk.outJump (by simp [madeLeft nullable]) ?_
      intro e₉ walk
      rw [Emit.outBind]
      refine walk.outMark ⟨.inl rfl, fun h => fresh' (.inl h)⟩ List.mem_cons_self (.inl rfl) ?_
      intro e₁₀ walk
      refine outRight rightWrites sized mayRight visible (walk.closedTwo fresh fresh') madeRight ?_
      intro e₁₁ R N drop present' rs rightShape isRight beyond walk
      refine next e₁₁ _ ⟨L, [.op (.jump skip), .mark l] ++ B ++ [.op (.ifNull x.both), .op (.jump x.left), .mark skip], R, N, l,
        drop, present, present', ls, rs, leftShape, isLeft, ?_, rightShape, isRight,
        beyond, rfl⟩ (by simpa using walk)
      simp only [Between, Exits.apart, apart, nullable, Bool.and_self, if_true]
      exact ⟨B, skip, againShape, rfl⟩

end Operands

namespace Build

open Operands (Both Exits)

def narrowOps (p : Prim) : List Op :=
  match p with
  | .int8 | .int16 => [.narrow p]
  | _ => []

theorem narrowIs (p : Prim) : narrow p = Emit.ops (narrowOps p) := by
  cases p <;> rfl

theorem narrowStraight (p : Prim) : Straight (narrowOps p) p.width p.width := by
  cases p <;> first | rfl | exact ⟨⟨rfl, rfl, rfl, rfl⟩, Nat.le_refl 1, rfl⟩

def orNullCode (p : Prim) (nullable : Bool) (isNull done : Label) : Asm :=
  if nullable then [.op (.box p), .op (.jump done), .mark isNull, .op .constNull, .mark done]
  else [.mark isNull, .mark done]

theorem resultRegular (p : Prim) (nullable : Bool) : (resultType p nullable).Regular knows := by
  cases nullable
  · exact .prim
  · exact .atom

def nullDepth (p : Prim) (nullable : Bool) : Nat := if nullable then 0 else p.width

variable {mode : Option Nat} {fs : Frames} {e₀ e : Emitter} {σ : Slots} {A : Asm} {Λ : List (Label × Nat)}
  {W : Label → Prop} {Q : Unit → Emitter → Prop}

theorem outOrNull {p : Prim} {nullable : Bool} {isNull done : Label} (walk : Walk knows mode e₀ e σ A Λ W (some p.width))
    (waitsNull : W isNull) (waitsDone : W done) (apart : done ≠ isNull) (madeNull : (isNull, nullDepth p nullable) ∈ Λ)
    (madeDone : (done, (resultType p nullable).width) ∈ Λ)
    (next : ∀ e', Walk knows mode e₀ e' σ (A ++ orNullCode p nullable isNull done) Λ
      (fun x => (W x ∧ x ≠ isNull) ∧ x ≠ done) (some (resultType p nullable).width) → Q () e') :
    Out (orNull p nullable isNull done) fs e E Q := by
  unfold orNull
  cases nullable with
  | false =>
    simp only [Bool.false_eq_true, if_false, Emit.outBind]
    refine walk.outMark waitsNull madeNull (.inr rfl) ?_
    intro e₁ walk
    refine walk.outMark ⟨waitsDone, apart⟩ madeDone (.inr rfl) ?_
    intro e₂ walk
    exact next e₂ (by simpa [orNullCode] using walk)
  | true =>
    simp only [if_true, Emit.outBind]
    refine walk.outPlain ⟨rfl, rfl, rfl, rfl⟩ (Nat.le_refl _) ?_
    intro e₁ walk
    have one : after (.box p) p.width = 1 := by simp [after, Op.effect]
    rw [one] at walk
    refine walk.outJump madeDone ?_
    intro e₂ walk
    refine walk.outMark waitsNull madeNull (.inl rfl) ?_
    intro e₃ walk
    refine walk.outPlain ⟨rfl, rfl, rfl, rfl⟩ (Nat.zero_le _) ?_
    intro e₄ walk
    refine walk.outMark ⟨waitsDone, apart⟩ madeDone (.inr rfl) ?_
    intro e₅ walk
    exact next e₅ (by simpa [orNullCode] using walk)

def Computed (K K' : Slots → Asm → Prop) (a : Arith) (p : Prim) (left right : Ty) (σ : Slots) (X : Asm) : Prop :=
  ∃ B isNull done, Both K K' ⟨isNull, isNull, isNull⟩ (.prim p) left right σ B ∧
    X = B ++ Asm.straight (.arith a p.num :: narrowOps p) ++
      orNullCode p (left.isNullable || right.isNullable) isNull done

theorem arithmeticSteady {a : Arith} {left right : Expr} (leftWrites : left.Writes E knows Γ K)
    (rightWrites : right.Writes E knows Γ K')
    (mayLeft : ∀ p, Operands.numeric? left.type right.type = some p → castOps? (.prim p) left.type = none →
      ∀ a b, E (.of (.incompatibleCast a b)))
    (mayRight : ∀ p, Operands.numeric? left.type right.type = some p → castOps? (.prim p) right.type = none →
      ∀ a b, E (.of (.incompatibleCast a b))) :
    Steady (arithmetic a left right) fun r => ∃ p, Operands.numeric? left.type right.type = some p ∧
      r.type = resultType p (left.type.isNullable || right.type.isNullable) ∧
      r.Writes E knows Γ (Computed K K' a p left.type right.type) := by
  unfold arithmetic
  split
  · exact steadyFail rfl
  · next p numeric =>
    refine steadyPure ⟨p, numeric, rfl, resultRegular p _, emitsOf ?_⟩
    intro fs e visible walk
    simp only [Emit.outBind, narrowIs]
    refine walk.outLabel (nullDepth p (left.type.isNullable || right.type.isNullable)) ?_
    intro isNull e₁ _ walk
    refine walk.outLabel (resultType p (left.type.isNullable || right.type.isNullable)).width ?_
    intro done e₂ fresh walk
    have made : left.type.isNullable = true ∨ right.type.isNullable = true → (isNull, 0) ∈
        [(done, (resultType p (left.type.isNullable || right.type.isNullable)).width),
          (isNull, nullDepth p (left.type.isNullable || right.type.isNullable))] := by
      intro nullable
      rw [← Bool.or_eq_true] at nullable
      simp [nullable, nullDepth]
    refine Operands.outBoth (x := ⟨isNull, isNull, isNull⟩) leftWrites rightWrites (by simp) (mayLeft p numeric)
      (mayRight p numeric) visible walk (fun n => made (.inl n)) (fun n => made (.inr n)) (fun n => made (.inl n)) ?_
    intro e₃ B both walk
    have twice : p.width + p.width = 2 * p.num.width := (Nat.two_mul p.width).symm
    rw [Ty.widthPrim, twice] at walk
    refine walk.outPlain ⟨rfl, rfl, rfl, rfl⟩ (Nat.le_refl _) ?_
    intro e₄ walk
    have left_ : after (.arith a p.num) (2 * p.num.width) = p.width := by simp [after, Op.effect, Prim.width]
    rw [left_] at walk
    refine walk.outStraight (narrowStraight p) ?_
    intro e₅ walk
    refine outOrNull walk (.inr (.inl rfl)) (.inl rfl) (fun h => fresh (.inl h)) (by simp) (by simp) ?_
    intro e₆ walk
    refine walk.finished ⟨B, isNull, done, both, rfl⟩ (by simp [Asm.straight]) rfl ?_
    intro l waits
    exact (waits.1.1.resolve_left waits.2).elim waits.1.2 id

def Negated (K : Slots → Asm → Prop) (p : Prim) (t : Ty) (σ : Slots) (X : Asm) : Prop :=
  ∃ B isNull done present os, K σ B ∧ castOps? (.prim p) t = some os ∧
    X = B ++ Asm.nullTest t isNull present ++ Asm.straight os ++ Asm.straight (.neg p.num :: narrowOps p) ++
      orNullCode p t.isNullable isNull done

theorem negateSteady {x : Expr} (writes : x.Writes E knows Γ K) :
    Steady (negate x) fun r => ∃ p, x.type.prim? = some p ∧ p ≠ .boolean ∧ r.type = resultType p x.type.isNullable ∧
      r.Writes E knows Γ (Negated K p x.type) := by
  unfold negate
  split
  · exact steadyFail rfl
  · next p found =>
    obtain ⟨is, number⟩ := Option.filter_eq_some_iff.1 found
    have truth : x.type.truth? = some p := by
      unfold Ty.truth?
      split
      · next any =>
        cases t : x.type with
        | atom n a =>
          rw [t] at any is
          cases a <;> contradiction
        | _ =>
          rw [t] at any
          contradiction
      · exact is
    obtain ⟨sized, os, converts⟩ := truthCast truth
    refine steadyPure ⟨p, is, by simpa using number, rfl, resultRegular p _, emitsOf ?_⟩
    intro fs e visible walk
    simp only [Emit.outBind, narrowIs]
    refine walk.outLabel (nullDepth p x.type.isNullable) ?_
    intro isNull e₁ _ walk
    refine walk.outLabel (resultType p x.type.isNullable).width ?_
    intro done e₂ fresh walk
    refine walk.outPart writes.emits visible ?_
    intro e₃ B shape walk
    refine walk.outCastOrNull sized (by intro nullable; simp [nullable, nullDepth]) (by simp [converts]) ?_
    intro e₄ present os is walk
    rw [Ty.widthPrim, Nat.zero_add] at walk
    refine walk.outPlain ⟨rfl, rfl, rfl, rfl⟩ (Nat.le_refl _) ?_
    intro e₅ walk
    have kept : after (.neg p.num) p.width = p.width := by simp [after, Op.effect, Prim.width]
    rw [kept] at walk
    refine walk.outStraight (narrowStraight p) ?_
    intro e₆ walk
    refine outOrNull walk (.inr (.inl rfl)) (.inl rfl) (fun h => fresh (.inl h)) (by simp) (by simp) ?_
    intro e₇ walk
    refine walk.finished ⟨B, isNull, done, present, os, shape, is, rfl⟩ (by simp [Asm.straight]) rfl ?_
    intro l waits
    exact (waits.1.1.resolve_left waits.2).elim waits.1.2 id

def orderOp (type : Ty) (location : Location) : Op :=
  match type with
  | .prim p => .cmp p.num
  | _ => .native (.objectCompare location.line location.offset)

theorem orderIs (type : Ty) (location : Location) : order type location = Emit.op (orderOp type location) := by
  cases type <;> rfl

theorem orderPlain (type : Ty) (location : Location) : (orderOp type location).Plain := by
  cases type <;> exact ⟨rfl, rfl, rfl, rfl⟩

theorem orderEffect {type : Ty} (sized : type ≠ .void) (location : Location) :
    (orderOp type location).effect = (type.width + type.width, 1) := by
  cases type with
  | prim p =>
    rw [Ty.widthPrim, ← Nat.two_mul]
    rfl
  | void => contradiction
  | _ =>
    rw [Ty.referenceWidth sized rfl]
    rfl

theorem outOrder {type : Ty} {location : Location} (sized : type ≠ .void)
    (walk : Walk knows mode e₀ e σ A Λ W (some (type.width + type.width)))
    (next : ∀ e', Walk knows mode e₀ e' σ (A ++ [.op (orderOp type location)]) Λ W (some 1) → Q () e') :
    Out (order type location) fs e E Q := by
  have effect := orderEffect sized location
  rw [orderIs]
  refine walk.outPlain (orderPlain type location) (Nat.le_of_eq (congrArg Prod.fst effect)) ?_
  intro e' walk
  simp only [after, effect, Nat.sub_self, Nat.zero_add] at walk
  exact next e' walk

theorem comparisonRegular {l r : Ty} (left : l.Regular knows) (right : r.Regular knows) :
    (Operands.comparison l r).Regular knows := by
  simp only [Operands.comparison]
  split
  · exact .prim
  · exact .prim
  · exact (Ty.regularHereditary.unify left right).withNull false

def Compared (K K' : Slots → Asm → Prop) (left right : Ty) (location : Location) (σ : Slots) (X : Asm) : Prop :=
  ∃ B l r b done, Both K K' ⟨l, r, b⟩ (Operands.comparison left right) left right σ B ∧
    X = B ++ [.op (orderOp (Operands.comparison left right) location), .op (.jump done),
      .mark l, .op (.const (.int (-1))), .op (.jump done), .mark r, .op (.const (.int 1)), .op (.jump done),
      .mark b, .op (.const (.int 0)), .op (.jump done), .mark done]

theorem outRank {l done : Label} {rank : Int32} (walk : Walk knows mode e₀ e σ A Λ W none) (waits : W l)
    (made : (l, 0) ∈ Λ) (madeDone : (done, 1) ∈ Λ)
    (next : ∀ e', Walk knows mode e₀ e' σ (A ++ [.mark l, .op (.const (.int rank)), .op (.jump done)]) Λ
      (fun x => W x ∧ x ≠ l) none → Q () e') :
    Out (Emit.mark l) fs e E fun _ e' => Out (Emit.op (.const (.int rank))) fs e' E fun _ e' =>
      Out (Emit.jump done) fs e' E Q := by
  refine walk.outMark waits made (.inl rfl) ?_
  intro e₁ walk
  refine walk.outPlain ⟨rfl, rfl, rfl, rfl⟩ (Nat.zero_le _) ?_
  intro e₂ walk
  refine Walk.outJump (k := 1) walk madeDone ?_
  intro e₃ walk
  exact next e₃ (by simpa using walk)

theorem compareWrites {left right : Expr} {location : Location} (leftWrites : left.Writes E knows Γ K)
    (rightWrites : right.Writes E knows Γ K')
    (mayLeft : castOps? (Operands.comparison left.type right.type) left.type = none →
      ∀ a b, E (.of (.incompatibleCast a b)))
    (mayRight : castOps? (Operands.comparison left.type right.type) right.type = none →
      ∀ a b, E (.of (.incompatibleCast a b))) :
    (compare left right location).Writes E knows Γ (Compared K K' left.type right.type location) := by
  have regular := comparisonRegular leftWrites.regular rightWrites.regular
  refine ⟨.prim, emitsOf ?_⟩
  intro fs e visible walk
  unfold compare
  simp only [Emit.outBind, Emit.forMCons, Emit.forMNil, Emit.outPure]
  refine walk.outLabel 0 ?_
  intro l e₁ _ walk
  refine walk.outLabel 0 ?_
  intro r e₂ freshR walk
  refine walk.outLabel 0 ?_
  intro b e₃ freshB walk
  refine walk.outLabel 1 ?_
  intro done e₄ freshDone walk
  refine Operands.outBoth (x := ⟨l, r, b⟩) leftWrites rightWrites regular.sized mayLeft mayRight visible walk
    (by simp) (by simp) (by simp) ?_
  intro e₅ B both walk
  refine outOrder regular.sized walk ?_
  intro e₆ walk
  refine walk.outJump (by simp) ?_
  intro e₇ walk
  refine outRank walk (by simp) (by simp) (by simp) ?_
  intro e₈ walk
  refine outRank walk ⟨by simp, fun h => freshR (.inl h)⟩ (by simp) (by simp) ?_
  intro e₉ walk
  refine outRank walk ⟨⟨by simp, fun h => freshB (.inr (.inl h))⟩, fun h => freshB (.inl h)⟩ (by simp) (by simp) ?_
  intro e₁₀ walk
  refine walk.outMark (by grind) List.mem_cons_self (.inl rfl) ?_
  intro e₁₁ walk
  exact walk.finished ⟨B, l, r, b, done, both, rfl⟩ (by simp) rfl (by grind)

def Decided (K K' : Slots → Asm → Prop) (left right : Ty) (decide : Label → List Op) (σ : Slots) (X : Asm) : Prop :=
  ∃ B f done, Both K K' ⟨f, f, f⟩ (Operands.comparison left right) left right σ B ∧
    X = B ++ Asm.straight (decide f) ++ Asm.choice 1 0 f done

def orderedOps (c : Cond) (type : Ty) (location : Location) (f : Label) : List Op :=
  [orderOp type location, .ifZero c.negate f]

def equalityOps (negated : Bool) (type : Ty) (f : Label) : List Op :=
  match type with
  | .prim p => [.cmp p.num, .ifZero (if negated then .eq else .ne) f]
  | _ => [.native .objectEquals, .ifZero (if negated then .ne else .eq) f]

theorem orderedWrites {c : Cond} {left right : Expr} {location : Location} (leftWrites : left.Writes E knows Γ K)
    (rightWrites : right.Writes E knows Γ K')
    (mayLeft : castOps? (Operands.comparison left.type right.type) left.type = none →
      ∀ a b, E (.of (.incompatibleCast a b)))
    (mayRight : castOps? (Operands.comparison left.type right.type) right.type = none →
      ∀ a b, E (.of (.incompatibleCast a b))) :
    (ordered c left right location).Writes E knows Γ
      (Decided K K' left.type right.type (orderedOps c (Operands.comparison left.type right.type) location)) := by
  have regular := comparisonRegular leftWrites.regular rightWrites.regular
  refine ⟨.prim, emitsOf ?_⟩
  intro fs e visible walk
  unfold ordered
  simp only [Emit.outBind]
  refine walk.outLabel 0 ?_
  intro f e₁ _ walk
  refine walk.outLabel 1 ?_
  intro done e₂ fresh walk
  refine Operands.outBoth (x := ⟨f, f, f⟩) leftWrites rightWrites regular.sized mayLeft mayRight visible walk
    (by simp) (by simp) (by simp) ?_
  intro e₃ B both walk
  refine outOrder regular.sized walk ?_
  intro e₄ walk
  refine Walk.outIfZero (k := 0) walk (by simp) ?_
  intro e₅ walk
  refine walk.outChoose (by simp) (.inl rfl) (fun h => fresh (.inl h)) (by simp) (by simp) ?_
  intro e₆ walk
  refine walk.finished ⟨B, f, done, both, rfl⟩ (by simp [Asm.straight, orderedOps]) rfl ?_
  intro l waits
  exact (waits.1.1.resolve_left waits.2).elim waits.1.2 id

theorem equalityWrites {negated : Bool} {left right : Expr} (leftWrites : left.Writes E knows Γ K)
    (rightWrites : right.Writes E knows Γ K')
    (mayLeft : castOps? (Operands.comparison left.type right.type) left.type = none →
      ∀ a b, E (.of (.incompatibleCast a b)))
    (mayRight : castOps? (Operands.comparison left.type right.type) right.type = none →
      ∀ a b, E (.of (.incompatibleCast a b))) :
    (equality left right negated).Writes E knows Γ
      (Decided K K' left.type right.type (equalityOps negated (Operands.comparison left.type right.type))) := by
  have regular := comparisonRegular leftWrites.regular rightWrites.regular
  refine ⟨.prim, emitsOf ?_⟩
  intro fs e visible walk
  unfold equality
  simp only [Emit.outBind]
  refine walk.outLabel 0 ?_
  intro f e₁ _ walk
  refine walk.outLabel 1 ?_
  intro done e₂ fresh walk
  refine Operands.outBoth (x := ⟨f, f, f⟩) leftWrites rightWrites regular.sized mayLeft mayRight visible walk
    (by simp) (by simp) (by simp) ?_
  intro e₃ B both walk
  have tail : ∀ {negated : Bool} {o : Op} {c : Cond}, o.Plain →
      o.effect = ((Operands.comparison left.type right.type).width + (Operands.comparison left.type right.type).width, 1) →
      equalityOps negated (Operands.comparison left.type right.type) f = [o, .ifZero c f] →
      Out (Emit.ops [o, .ifZero c f]) fs e₃ E fun _ e' => Out (choose 1 0 f done) fs e' E fun _ e' => ∃ X Λ W,
        Decided K K' left.type right.type (equalityOps negated (Operands.comparison left.type right.type)) e.slots X ∧
          (∀ l, ¬ W l) ∧ Walk knows none e e' e.slots X Λ W (some 1) := by
    intro negated o c plain effect same
    simp only [Emit.opsCons, Emit.opsNil, Emit.outBind, Emit.outPure]
    refine walk.outPlain plain (Nat.le_of_eq (congrArg Prod.fst effect)) ?_
    intro e₄ walk
    simp only [after, effect, Nat.sub_self, Nat.zero_add] at walk
    refine Walk.outIfZero (k := 0) walk (by simp) ?_
    intro e₅ walk
    refine walk.outChoose (by simp) (.inl rfl) (fun h => fresh (.inl h)) (by simp) (by simp) ?_
    intro e₆ walk
    refine walk.finished ⟨B, f, done, both, rfl⟩ (by simp [Asm.straight, same]) rfl ?_
    intro l waits
    exact (waits.1.1.resolve_left waits.2).elim waits.1.2 id
  cases type : Operands.comparison left.type right.type with
  | prim p =>
    simp only [Emit.outBind]
    rw [type] at tail
    exact tail ⟨rfl, rfl, rfl, rfl⟩ (by rw [Ty.widthPrim, ← Nat.two_mul]; rfl) rfl
  | void => exact absurd type regular.sized
  | _ =>
    simp only [Emit.outBind]
    rw [type] at tail regular
    exact tail ⟨rfl, rfl, rfl, rfl⟩ (by rw [Ty.referenceWidth regular.sized rfl]; rfl) rfl

end Build

end QueryMachine
