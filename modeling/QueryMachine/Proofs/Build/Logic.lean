import QueryMachine.Build.Switch
import QueryMachine.Proofs.Build.Basic

/-! Truth values, tests for null and choices: each builder writes a walk. -/
namespace QueryMachine.Build

open Emit (Out)
open Conversion

variable {E : Error → Prop} {knows : String → Prop} {Γ : Frames → Slots → Prop} {K : Slots → Asm → Prop}

theorem checkTruthSteady (t : Ty) : Steady (checkTruth t) fun _ => ∃ p, t.truth? = some p := by
  unfold checkTruth
  split
  · next tested =>
    refine steadyPure ?_
    unfold Ty.truth?
    split
    · exact ⟨_, rfl⟩
    · next other =>
      rw [Bool.not_eq_true] at other
      rw [other, Bool.false_or] at tested
      exact Option.isSome_iff_exists.1 tested
  · exact steadyFail rfl

def Chosen (K : Slots → Asm → Prop) (t : Ty) (first second : Int32) (σ : Slots) (X : Asm) : Prop :=
  ∃ B f done, Tests K t f σ B ∧ X = B ++ Asm.choice first second f done

theorem emitsChosen {x : Expr} {p : Prim} {first second : Int32} (writes : x.Writes E knows Γ K)
    (truth : x.type.truth? = some p) :
    Emits E knows Γ 1 (Chosen K x.type first second) (do
      let f ← Emit.newLabel
      let done ← Emit.newLabel
      branchFalse x f
      choose first second f done) := by
  refine emitsOf ?_
  intro fs e visible walk
  simp only [Emit.outBind]
  refine walk.outLabel 0 ?_
  intro f e₁ _ walk
  refine walk.outLabel 1 ?_
  intro done e₂ fresh walk
  refine walk.outBranchFalse writes (by simp [truth]) visible (by simp) ?_
  intro e₃ B tests walk
  refine walk.outChoose (by simp) (.inl rfl) (fun h => fresh (.inl h)) (by simp) (by simp) ?_
  intro e₄ walk
  refine ⟨_, _, _, ⟨B, f, done, tests, rfl⟩, ?_, walk⟩
  intro l waits
  exact (waits.1.1.resolve_left waits.2).elim waits.1.2 id

theorem notSteady {x : Expr} (writes : x.Writes E knows Γ K) :
    Steady (Build.not x) fun r => r.type = .boolean ∧ r.Writes E knows Γ (Chosen K x.type 0 1) := by
  refine steadyBind (checkTruthSteady x.type) ?_
  intro _ ⟨p, truth⟩
  exact steadyPure ⟨rfl, .prim, emitsChosen writes truth⟩

section

variable {ι : Type} {items : List ι} {expr : ι → Expr} {K : ι → Slots → Asm → Prop}

theorem checkTruthsSteady :
    Steady ((items.map expr).forM fun e => checkTruth e.type) fun _ => ∀ i ∈ items, ∃ p, (expr i).type.truth? = some p := by
  refine (steadyForM (H := fun e => ∃ p, e.type.truth? = some p) fun e _ => checkTruthSteady e.type).mono ?_
  intro _ all i inside
  exact all (expr i) (List.mem_map_of_mem inside)

theorem andSteady (writes : ∀ i ∈ items, (expr i).Writes E knows Γ (K i)) :
    Steady (Build.and (items.map expr)) fun r => r.type = .boolean ∧ r.Writes E knows Γ fun σ X =>
      ∃ B f done, Each (fun i => Tests (K i) (expr i).type f σ) items B ∧ X = B ++ Asm.choice 1 0 f done := by
  unfold Build.and
  split
  · exact steadyBind (P := fun _ => False) (steadyFail rfl) fun _ h => h.elim
  · refine steadyBind checkTruthsSteady ?_
    intro _ truths
    refine steadyPure ⟨rfl, .prim, emitsOf ?_⟩
    intro fs e visible walk
    simp only [Emit.outBind, Emit.forMMap]
    refine walk.outLabel 0 ?_
    intro f e₁ _ walk
    refine walk.outLabel 1 ?_
    intro done e₂ fresh walk
    refine Walk.outForM (R := fun i => Tests (K i) (expr i).type f e.slots) ?_ walk ?_
    · intro i inside e A Q walk next
      obtain ⟨p, truth⟩ := truths i inside
      exact walk.outBranchFalse (writes i inside) (by simp [truth]) visible (by simp) next
    · intro e₃ B pieces walk
      refine walk.outChoose (by simp) (.inl rfl) (fun h => fresh (.inl h)) (by simp) (by simp) ?_
      intro e₄ walk
      refine ⟨_, _, _, ⟨B, f, done, pieces, rfl⟩, ?_, walk⟩
      intro l waits
      exact (waits.1.1.resolve_left waits.2).elim waits.1.2 id

def Leaves (K : Slots → Asm → Prop) (type : Ty) (t : Label) (σ : Slots) (X : Asm) : Prop :=
  ∃ B next, Tests K type next σ B ∧ X = B ++ [.op (.jump t), .mark next]

theorem orSteady (writes : ∀ i ∈ items, (expr i).Writes E knows Γ (K i)) :
    Steady (Build.or (items.map expr)) fun r => r.type = .boolean ∧ r.Writes E knows Γ fun σ X =>
      ∃ B t done, Each (fun i => Leaves (K i) (expr i).type t σ) items B ∧ X = B ++ Asm.choice 0 1 t done := by
  unfold Build.or
  split
  · exact steadyBind (P := fun _ => False) (steadyFail rfl) fun _ h => h.elim
  · refine steadyBind checkTruthsSteady ?_
    intro _ truths
    refine steadyPure ⟨rfl, .prim, emitsOf ?_⟩
    intro fs e visible walk
    simp only [Emit.outBind, Emit.forMMap]
    refine walk.outLabel 0 ?_
    intro t e₁ _ walk
    refine walk.outLabel 1 ?_
    intro done e₂ fresh walk
    refine Walk.outForM (R := fun i => Leaves (K i) (expr i).type t e.slots) ?_ walk ?_
    · intro i inside e A Q walk next
      obtain ⟨p, truth⟩ := truths i inside
      simp only [Emit.outBind]
      refine walk.outLabel 0 ?_
      intro stay e₁ fresh walk
      refine walk.outBranchFalse (writes i inside) (by simp [truth]) visible (by simp) ?_
      intro e₂ B tests walk
      refine walk.outJump (by simp) ?_
      intro e₃ walk
      refine walk.outMark (.inl rfl) List.mem_cons_self (.inl rfl) ?_
      intro e₄ walk
      exact next e₄ _ ⟨B, stay, tests, rfl⟩ (by simpa using walk.closed fresh)
    · intro e₃ B pieces walk
      refine walk.outChoose (by simp) (.inl rfl) (fun h => fresh (.inl h)) (by simp) (by simp) ?_
      intro e₄ walk
      refine ⟨_, _, _, ⟨B, t, done, pieces, rfl⟩, ?_, walk⟩
      intro l waits
      exact (waits.1.1.resolve_left waits.2).elim waits.1.2 id

end

def NullTold (K : Slots → Asm → Prop) (t : Ty) (σ : Slots) (X : Asm) : Prop :=
  ∃ B, K σ B ∧ if t.isNullable then ∃ l done, X = B ++ [.op (.ifNull l)] ++ Asm.choice 0 1 l done
    else X = B ++ [.op (.pop t.width), .op (.const (.int 0))]

theorem isNullWrites {x : Expr} (writes : x.Writes E knows Γ K) :
    (Build.isNull x).Writes E knows Γ (NullTold K x.type) := by
  refine ⟨.prim, emitsOf ?_⟩
  intro fs e visible walk
  unfold Build.isNull NullTold
  simp only [Emit.outBind]
  refine walk.outPart writes.emits visible ?_
  intro e₁ B shape walk
  cases nullable : x.type.isNullable with
  | true =>
    rw [Ty.nullableWidth nullable] at walk
    simp only [if_true, Emit.outBind]
    refine walk.outLabel 0 ?_
    intro t e₂ _ walk
    refine walk.outLabel 1 ?_
    intro done e₃ fresh walk
    refine walk.outIfNull (by simp) ?_
    intro e₄ walk
    refine walk.outChoose (by simp) (.inl rfl) (fun h => fresh (.inl h)) (by simp) (by simp) ?_
    intro e₅ walk
    refine ⟨_, _, _, ⟨B, shape, t, done, rfl⟩, ?_, walk⟩
    intro l waits
    exact (waits.1.1.resolve_left waits.2).elim waits.1.2 id
  | false =>
    have positive := Ty.widthPos writes.regular.sized
    simp only [Bool.false_eq_true, if_false, Emit.outBind, Emit.pop, Nat.ne_of_gt positive]
    refine walk.outPlain ⟨rfl, rfl, rfl, rfl⟩ (Nat.le_add_left _ 0) ?_
    intro e₂ walk
    refine walk.outPlain ⟨rfl, rfl, rfl, rfl⟩ (Nat.zero_le _) ?_
    intro e₃ walk
    refine walk.finished ⟨B, shape, rfl⟩ (by simp) ?_ fun _ h => h
    simp [Verify.after, Op.effect, Value.width, Ty.boolean, Ty.width, Ty.rep, Rep.width, Prim.width, Prim.num, Num.width]

def Offers (K : Slots → Asm → Prop) (type source : Ty) (done : Label) (σ : Slots) (X : Asm) : Prop :=
  ∃ B next present os, K σ B ∧ castOps? type source = some os ∧
    X = B ++ Asm.nullTest source next present ++ Asm.straight os ++ [.op (.jump done), .mark next]

section

variable {ι : Type} {items : List ι} {expr : ι → Expr} {K : ι → Slots → Asm → Prop}

def upTo (expr : ι → Expr) : List ι → List ι
  | [] => []
  | i :: is => if (expr i).type.isNullable then i :: upTo expr is else [i]

theorem upToPresentSubset (es : List Expr) : upToPresent es ⊆ es := by
  induction es with
  | nil => exact List.Subset.refl _
  | cons e es ih =>
    unfold upToPresent
    split
    · exact List.cons_subset_cons e ih
    · exact List.cons_subset_cons e (List.nil_subset es)

theorem upToMap (items : List ι) : upToPresent (items.map expr) = (upTo expr items).map expr := by
  induction items with
  | nil => rfl
  | cons i is ih =>
    simp only [List.map_cons, upToPresent, upTo]
    split
    · rw [ih, List.map_cons]
    · rfl

theorem upToMem {i : ι} (inside : i ∈ upTo expr items) : i ∈ items := by
  induction items with
  | nil => contradiction
  | cons j js ih =>
    unfold upTo at inside
    split at inside
    · rcases List.mem_cons.1 inside with rfl | later
      · exact List.mem_cons_self
      · exact List.mem_cons_of_mem j (ih later)
    · rw [List.mem_singleton] at inside
      exact inside ▸ List.mem_cons_self

def terminal (expr : ι → Expr) (items : List ι) : Bool := items.any fun i => !(expr i).type.isNullable

variable {mode : Option Nat} {fs : Frames} {e₀ e : Emitter} {σ : Slots} {A : Asm} {Λ : List (Label × Nat)}
  {W : Label → Prop} {Q : Unit → Emitter → Prop}

theorem outOffer {x : Expr} {type : Ty} {done : Label} {K : Slots → Asm → Prop} (writes : x.Writes E knows Γ K)
    (may : castOps? type x.type = none → ∀ a b, E (.of (.incompatibleCast a b))) (visible : Γ fs σ)
    (walk : Walk knows mode e₀ e σ A Λ W (some 0)) (made : (done, type.width) ∈ Λ) (j : Nat)
    (nullable : x.type.isNullable = true → j = 0)
    (next : ∀ e' B, Offers K type x.type done σ B → Walk knows mode e₀ e' σ (A ++ B) Λ W (some j) → Q () e') :
    Out (do
      let next ← Emit.newLabel
      x.generate
      let _ ← Emit.castOrNull type x.type next
      Emit.jump done
      Emit.mark next) fs e E Q := by
  simp only [Emit.outBind]
  refine walk.outLabel j ?_
  intro skip e₁ fresh walk
  refine walk.outPart writes.emits visible ?_
  intro e₂ B shape walk
  refine walk.outCastOrNull writes.regular.sized ?_ may ?_
  · intro is
    rw [nullable is]
    exact List.mem_cons_self
  · intro e₃ present os is walk
    rw [Nat.zero_add] at walk
    refine walk.outJump (List.mem_cons_of_mem _ made) ?_
    intro e₄ walk
    refine walk.outMark (.inl rfl) List.mem_cons_self (.inl rfl) ?_
    intro e₅ walk
    exact next e₅ _ ⟨B, skip, present, os, shape, is, rfl⟩ (by simpa using walk.closed fresh)

theorem outOffers {type : Ty} {done : Label} (writes : ∀ i ∈ items, (expr i).Writes E knows Γ (K i))
    (may : ∀ i ∈ upTo expr items, castOps? type (expr i).type = none → ∀ a b, E (.of (.incompatibleCast a b)))
    (visible : Γ fs σ) (walk : Walk knows mode e₀ e σ A Λ W (some 0)) (made : (done, type.width) ∈ Λ)
    (next : ∀ e' B, Each (fun i => Offers (K i) type (expr i).type done σ) (upTo expr items) B →
      Walk knows mode e₀ e' σ (A ++ B) Λ W (some (if terminal expr (upTo expr items) then type.width else 0)) →
        Q () e') :
    Out ((upTo expr items).forM fun i => do
      let next ← Emit.newLabel
      (expr i).generate
      let _ ← Emit.castOrNull type (expr i).type next
      Emit.jump done
      Emit.mark next) fs e E Q := by
  induction items generalizing e A with
  | nil => exact next e [] rfl (by simpa [upTo, terminal] using walk)
  | cons i is ih =>
    unfold upTo at may next ⊢
    split
    · next nullable =>
      rw [if_pos nullable] at may next
      change Out (_ >>= fun _ => (upTo expr is).forM _) fs e E Q
      rw [Emit.outBind]
      refine outOffer (writes i List.mem_cons_self) (may i List.mem_cons_self) visible walk made 0 (fun _ => rfl) ?_
      intro e₁ B piece walk
      refine ih (fun j inside => writes j (List.mem_cons_of_mem i inside))
        (fun j inside => may j (List.mem_cons_of_mem i inside)) walk ?_
      intro e₂ C pieces walk
      refine next e₂ (B ++ C) ⟨B, C, piece, pieces, rfl⟩ ?_
      simpa [terminal, nullable] using walk
    · next never =>
      rw [if_neg never] at may next
      change Out (_ >>= fun _ => pure ()) fs e E Q
      rw [Emit.outBind]
      refine outOffer (writes i List.mem_cons_self) (may i List.mem_cons_self) visible walk made type.width
        (fun nullable => absurd nullable never) ?_
      intro e₁ B piece walk
      refine next e₁ B ⟨B, [], piece, rfl, (List.append_nil B).symm⟩ ?_
      simpa [terminal, never] using walk

def Coalesced (expr : ι → Expr) (items : List ι) (type : Ty) : Prop :=
  ∃ u, Ty.unifyAll ((upTo expr items).map fun i => (expr i).type) = .ok u ∧
    type = u.withNull !terminal expr (upTo expr items)

theorem coalescedRegular {type : Ty} (writes : ∀ i ∈ items, (expr i).Writes E knows Γ (K i))
    (is : Coalesced expr items type) : type.Regular knows := by
  obtain ⟨u, unified, rfl⟩ := is
  refine (Ty.regularHereditary.unifyAll ?_ unified).withNull _
  intro t inside
  obtain ⟨i, member, rfl⟩ := List.mem_map.1 inside
  exact (writes i (upToMem member)).regular

theorem coalescedWidth {type : Ty} (writes : ∀ i ∈ items, (expr i).Writes E knows Γ (K i))
    (is : Coalesced expr items type) (never : terminal expr (upTo expr items) = false) : type.width = 1 := by
  have regular := coalescedRegular writes is
  obtain ⟨u, unified, rfl⟩ := is
  refine Ty.referenceWidth regular.sized ?_
  cases listed : upTo expr items with
  | nil =>
    rw [listed] at unified
    contradiction
  | cons i is =>
    rw [listed] at unified never
    cases unified
    have nullable : (expr i).type.isNullable = true := by
      simp only [terminal, List.any_cons, Bool.or_eq_false_iff, Bool.not_eq_false'] at never
      exact never.1
    exact Ty.withNullReference _ (Ty.foldlReference (Ty.nullableReference nullable) (is.map fun i => (expr i).type))

theorem coalesceCases (es : List Expr) :
    (∃ c, c.isInternal = false ∧ coalesce es = fail c) ∨ (∃ e, upToPresent es = [e] ∧ coalesce es = pure e) ∨
    coalesce es = (do
      let unified ← lift (Ty.unifyAll ((upToPresent es).map (·.type)))
      let terminal := (upToPresent es).any fun e => !e.type.isNullable
      return ⟨unified.withNull !terminal, do
        let done ← Emit.newLabel
        (upToPresent es).forM fun e => do
          let next ← Emit.newLabel
          e.generate
          let _ ← Emit.castOrNull (unified.withNull !terminal) e.type next
          Emit.jump done
          Emit.mark next
        if !terminal then Emit.op .constNull
        Emit.mark done⟩) := by
  unfold coalesce
  rcases upToPresent es with _ | ⟨e, _ | ⟨e', rest⟩⟩
  · exact .inl ⟨_, rfl, rfl⟩
  · exact .inr (.inl ⟨e, rfl, rfl⟩)
  · exact .inr (.inr rfl)

theorem coalesceSteady (writes : ∀ i ∈ items, (expr i).Writes E knows Γ (K i))
    (may : ∀ type, Coalesced expr items type → ∀ i ∈ upTo expr items, castOps? type (expr i).type = none →
      ∀ a b, E (.of (.incompatibleCast a b))) :
    Steady (Build.coalesce (items.map expr)) fun r => (∃ i, upTo expr items = [i] ∧ r = expr i) ∨
      Coalesced expr items r.type ∧ r.Writes E knows Γ fun σ X => ∃ B done,
        Each (fun i => Offers (K i) r.type (expr i).type done σ) (upTo expr items) B ∧
          X = B ++ (if terminal expr (upTo expr items) then [] else [.op .constNull]) ++ [.mark done] := by
  rcases coalesceCases (items.map expr) with ⟨c, refusal, same⟩ | ⟨x, single, same⟩ | same
  · rw [same]
    exact steadyFail refusal
  · rw [same]
    rw [upToMap] at single
    obtain ⟨i, is, rfl⟩ := List.map_eq_singleton_iff.1 single
    exact steadyPure (.inl ⟨i, is, rfl⟩)
  · have last : ((upTo expr items).map expr).any (fun e => !e.type.isNullable) = terminal expr (upTo expr items) := by
      rw [List.any_map]
      rfl
    rw [same, upToMap, last, List.map_map]
    refine steadyBind (steadyLift (P := fun u => Ty.unifyAll ((upTo expr items).map ((·.type) ∘ expr)) = .ok u) ?_
      fun _ h => h) ?_
    · intro err failed
      cases ts : (upTo expr items).map ((·.type) ∘ expr) with
      | nil =>
        rw [ts] at failed
        cases failed
        rfl
      | cons t ts' =>
        rw [ts] at failed
        contradiction
    · intro u unified
      obtain ⟨type, named⟩ : ∃ type, type = u.withNull !terminal expr (upTo expr items) := ⟨_, rfl⟩
      have is : Coalesced expr items type := ⟨u, unified, named⟩
      dsimp only
      rw [← named]
      refine steadyPure (.inr ⟨is, coalescedRegular writes is, emitsOf ?_⟩)
      intro fs e visible walk
      simp only [Emit.outBind, Emit.forMMap]
      refine walk.outLabel type.width ?_
      intro done e₁ _ walk
      refine outOffers writes (may type is) visible walk List.mem_cons_self ?_
      intro e₂ B pieces walk
      cases never : terminal expr (upTo expr items) with
      | true =>
        rw [never] at walk
        simp only [Bool.not_true, Bool.false_eq_true, if_false]
        refine walk.outMark (.inl rfl) List.mem_cons_self (.inr rfl) ?_
        intro e₃ walk
        exact walk.finished ⟨B, done, pieces, rfl⟩ (by simp) rfl fun l waits => waits.1.elim waits.2 id
      | false =>
        rw [never] at walk
        simp only [Bool.not_false, if_true, Emit.outBind]
        refine walk.outPlain ⟨rfl, rfl, rfl, rfl⟩ (Nat.zero_le _) ?_
        intro e₃ walk
        have wide := coalescedWidth writes is never
        refine walk.outMark (.inl rfl) List.mem_cons_self (.inr (by rw [wide]; rfl)) ?_
        intro e₃ walk
        exact walk.finished ⟨B, done, pieces, rfl⟩ (by simp) rfl fun l waits => waits.1.elim waits.2 id

end

def Selected (Kt Ky Kn : Slots → Asm → Prop) (test yes no : Ty) (σ : Slots) (X : Asm) : Prop :=
  ∃ T Y N next done, Tests Kt test next σ T ∧ Converted Ky (Ty.unify yes no) yes σ Y ∧
    Converted Kn (Ty.unify yes no) no σ N ∧ X = T ++ Y ++ [.op (.jump done), .mark next] ++ N ++ [.mark done]

theorem selectSteady {test yes no : Expr} {Kt Ky Kn : Slots → Asm → Prop} (testWrites : test.Writes E knows Γ Kt)
    (yesWrites : yes.Writes E knows Γ Ky) (noWrites : no.Writes E knows Γ Kn)
    (mayTest : test.type.truth? = none → ∀ a b, E (.of (.incompatibleCast a b)))
    (mayYes : castOps? (Ty.unify yes.type no.type) yes.type = none → ∀ a b, E (.of (.incompatibleCast a b)))
    (mayNo : castOps? (Ty.unify yes.type no.type) no.type = none → ∀ a b, E (.of (.incompatibleCast a b))) :
    Steady (Build.select [(test, yes)] no) fun r => r.type = Ty.unify yes.type no.type ∧
      r.Writes E knows Γ (Selected Kt Ky Kn test.type yes.type no.type) := by
  refine steadyPure ⟨rfl, Ty.regularHereditary.unify yesWrites.regular noWrites.regular, emitsOf ?_⟩
  intro fs e visible walk
  simp only [Emit.outBind]
  refine walk.outLabel (Ty.unify yes.type no.type).width ?_
  intro done e₁ _ walk
  change Out (_ >>= fun _ => pure ()) fs e₁ E _
  simp only [Emit.outBind, Emit.outPure]
  refine walk.outLabel 0 ?_
  intro next e₂ fresh walk
  refine walk.outBranchFalse testWrites mayTest visible List.mem_cons_self ?_
  intro e₃ T tests walk
  refine walk.outAs yesWrites visible mayYes ?_
  intro e₄ Y converted walk
  rw [Nat.zero_add] at walk
  refine walk.outJump (by simp) ?_
  intro e₅ walk
  refine walk.outMark (.inl rfl) List.mem_cons_self (.inl rfl) ?_
  intro e₆ walk
  refine walk.outAs noWrites visible mayNo ?_
  intro e₇ N otherwise walk
  rw [Nat.zero_add] at walk
  refine walk.outMark ⟨.inr (.inl rfl), fun h => fresh (.inl h.symm)⟩ (by simp) (.inr rfl) ?_
  intro e₈ walk
  refine walk.finished ⟨T, Y, N, next, done, tests, converted, otherwise, rfl⟩ (by simp) rfl ?_
  intro l waits
  exact (waits.1.1.resolve_left waits.1.2).elim waits.2 id

end QueryMachine.Build
