import QueryMachine.Build.Access
import QueryMachine.Build.Collection
import QueryMachine.Proofs.Build.Logic

/-! Literals, locals, guarded reads, casts and collections: each builder writes a walk. -/
namespace QueryMachine

open Emit (Out)
open Conversion
open Verify (after)

variable {E : Error → Prop} {knows : String → Prop} {Γ : Frames → Slots → Prop} {K K' : Slots → Asm → Prop}

def Single (o : Op) (_ : Slots) (X : Asm) : Prop := X = [.op o]

theorem emitsPlain {o : Op} {width : Nat} (plain : o.Plain) (effect : o.effect = (0, width)) :
    Emits E knows Γ width (Single o) (Emit.op o) := by
  refine emitsOf ?_
  intro fs e visible walk
  refine walk.outPlain plain (by simp [effect]) ?_
  intro e₁ walk
  exact walk.finished rfl rfl (by simp [after, effect]) fun _ h => h

theorem literalWrites {v : Value} {t : Ty} (regular : t.Regular knows) (width : v.width = t.width) :
    (Expr.literal v t).Writes E knows Γ (Single (.const v)) :=
  ⟨regular, emitsPlain ⟨rfl, rfl, rfl, rfl⟩ (by simp [Op.effect, Expr.literal, width])⟩

theorem nullWrites {t : Ty} (regular : t.Regular knows) : (Expr.null t).Writes E knows Γ (Single .constNull) := by
  have result : t.boxed.orNull.Regular knows := regular.boxed.withNull true
  refine ⟨result, ?_⟩
  have wide : (Expr.null t).type.width = 1 := result.width (Ty.orNullReference t)
  rw [wide]
  exact emitsPlain ⟨rfl, rfl, rfl, rfl⟩ rfl

theorem staticWrites {f : FieldRef} {t : Ty} (regular : t.Regular knows) (rep : f.rep = t.rep) (known : knows f.cls) :
    (Expr.mk t (Emit.op (.getStatic f))).Writes E knows Γ (Single (.getStatic f)) := by
  refine ⟨regular, emitsOf ?_⟩
  intro fs e visible walk
  refine walk.outMember rfl rfl rfl rfl known (Nat.zero_le _) ?_
  intro e₁ walk
  exact walk.finished rfl rfl (by simp [after, Op.effect, rep, Ty.width]) fun _ h => h

def Read (l : Local) (σ : Slots) (X : Asm) : Prop := ∃ s, σ.Holds l s ∧ X = [.op (l.loadAt s)]

theorem localEmits {l : Local} (sized : l.type ≠ .void) (holds : ∀ fs σ, Γ fs σ → ∃ s, σ.Holds l s) :
    Emits E knows Γ l.type.width (Read l) l.read.generate := by
  refine emitsOf ?_
  intro fs e visible walk
  obtain ⟨s, here⟩ := holds fs e.slots visible
  unfold Local.read
  simp only [Emit.outBind]
  refine walk.outSlot here ?_
  refine walk.outLoad here (Nat.ne_of_gt (Ty.widthPos sized)) ?_
  intro e₁ walk
  exact walk.finished ⟨s, here, rfl⟩ rfl (Nat.zero_add _) fun _ h => h

theorem localWrites {l : Local} (regular : l.type.Regular knows) (holds : ∀ fs σ, Γ fs σ → ∃ s, σ.Holds l s) :
    l.read.Writes E knows Γ (Read l) := ⟨regular, localEmits regular.sized holds⟩

theorem castBoxed (t : Ty) : ∃ os, castOps? t.boxed.orNull t = some os := by
  cases t with
  | prim p => cases p <;> exact ⟨_, rfl⟩
  | atom n a => cases a <;> exact ⟨[], if_pos rfl⟩
  | carrier n c t => cases c <;> exact ⟨[], if_pos rfl⟩
  | _ => exact ⟨[], if_pos rfl⟩

def Guarded (K K' : Slots → Asm → Prop) (target present : Ty) (held : Local) (σ : Slots) (X : Asm) : Prop :=
  ∃ T P isNull done there s os, K σ T ∧ σ.Holds held s ∧ K' σ P ∧ castOps? present.boxed.orNull present = some os ∧
    X = T ++ Asm.nullTest target isNull there ++ [.op (held.storeAt s)] ++ P ++ Asm.straight os ++
      [.op (.jump done), .mark isNull, .op .constNull, .mark done]

theorem guardedWrites {target present : Expr} {held : Local} (targetWrites : target.Writes E knows Γ K)
    (presentWrites : present.Writes E knows Γ K') (nullable : target.type.isNullable = true)
    (type : held.type = target.type.nonNull) (holds : ∀ fs σ, Γ fs σ → ∃ s, σ.Holds held s) :
    (Expr.mk present.type.boxed.orNull (do
      let isNull ← Emit.newLabel
      let done ← Emit.newLabel
      target.generate
      let _ ← Emit.nullTest target.type isNull
      Emit.store (← Emit.slotOf held) held.type.width
      present.generateAs present.type.boxed.orNull
      Emit.jump done
      Emit.mark isNull
      Emit.op .constNull
      Emit.mark done)).Writes E knows Γ (Guarded K K' target.type present.type held) := by
  have regular : present.type.boxed.orNull.Regular knows := presentWrites.regular.boxed.withNull true
  have wide : present.type.boxed.orNull.width = 1 := regular.width (Ty.orNullReference _)
  have width : held.type.width = target.type.width := by
    rw [type]
    exact Ty.withNullWidth target.type false
  refine ⟨regular, emitsOf ?_⟩
  intro fs e visible walk
  obtain ⟨s, here⟩ := holds fs e.slots visible
  simp only [Emit.outBind]
  refine walk.outLabel 0 ?_
  intro isNull e₁ _ walk
  refine walk.outLabel 1 ?_
  intro done e₂ fresh walk
  refine walk.outPart targetWrites.emits visible ?_
  intro e₃ T targetShape walk
  refine walk.outNullTest (fun _ => by simp) ?_
  intro e₄ there walk
  refine walk.outSlot here ?_
  rw [← width] at walk
  refine walk.outStore here (by rw [width, Ty.nullableWidth nullable]; exact Nat.one_ne_zero) ?_
  intro e₅ walk
  refine walk.outAs presentWrites visible ?_ ?_
  · intro fails
    obtain ⟨os, is⟩ := castBoxed present.type
    rw [is] at fails
    contradiction
  · rintro e₆ B ⟨P, os, presentShape, is, same⟩ walk
    rw [wide, Nat.zero_add, same] at walk
    refine walk.outJump (by simp) ?_
    intro e₇ walk
    refine walk.outMark (.inr (.inl rfl)) (List.mem_cons_of_mem _ List.mem_cons_self) (.inl rfl) ?_
    intro e₈ walk
    refine walk.outPlain ⟨rfl, rfl, rfl, rfl⟩ (Nat.zero_le _) ?_
    intro e₉ walk
    refine walk.outMark ⟨.inl rfl, fun h => fresh (.inl h)⟩ List.mem_cons_self (.inr rfl) ?_
    intro e₁₀ walk
    refine walk.finished ⟨T, P, isNull, done, there, s, os, targetShape, here, presentShape, is, rfl⟩ (by simp)
      wide.symm ?_
    intro l waits
    exact (waits.1.1.resolve_left waits.2).elim waits.1.2 id

/-! ### Reads -/

def Gets (a : PropertyAccess) (name : String) (type : Ty) (X : Asm) : Prop :=
  match a with
  | .struct cls fields => ∃ f, Ty.fieldNamed? fields name = some f ∧ X = [.op (.getField ⟨cls, f.1, f.2.rep⟩)]
  | .record => X = [.op (.const (.string name)), .op (.native .recordGet)]
  | .map _ => X = [.op (.const (.string name)), .op (.native .mapGet)] ++ Asm.downcast type
  | .host .. | .dynamic => ∃ site, X = [.op (.dynamic site (.getProperty name))] ++ Asm.downcast type

def Followed (K : Slots → Asm → Prop) (more : Asm → Prop) (σ : Slots) (X : Asm) : Prop :=
  ∃ B C, K σ B ∧ more C ∧ X = B ++ C

theorem fieldRegular {fields : List (String × Ty)} {name : String} {f : String × Ty}
    (all : ∀ f ∈ fields, f.2.Regular knows) (found : Ty.fieldNamed? fields name = some f) : f.2.Regular knows :=
  all f (List.mem_of_find?_eq_some found)

theorem propertyCases {t : Ty} {a : PropertyAccess} (regular : t.Regular knows) (of : PropertyAccess.of? t = some a) :
    (∃ cls fields, a = .struct cls fields ∧ knows cls ∧ ∀ f ∈ fields, Ty.Regular knows f.2) ∨ a = .record ∨
      (∃ value, a = .map value ∧ value.Regular knows ∧ value.isPrimitive = false) ∨ a = .dynamic := by
  cases regular with
  | prim => contradiction
  | @atom n a =>
    cases a with
    | record =>
      cases of
      exact .inr (.inl rfl)
    | any =>
      cases of
      exact .inr (.inr (.inr rfl))
    | _ => contradiction
  | list => contradiction
  | map key _ value reference =>
    unfold PropertyAccess.of? at of
    split at of
    · contradiction
    · contradiction
    · next same =>
      cases same
      cases of
      exact .inr (.inr (.inl ⟨_, rfl, value, reference⟩))
    · next same =>
      cases same
      cases of
      exact .inr (.inr (.inl ⟨_, rfl, value, reference⟩))
    · contradiction
    · contradiction
    · contradiction
  | struct is fields =>
    cases of
    exact .inl ⟨_, _, rfl, is, fields⟩

theorem propertySteady {t : Ty} {a : PropertyAccess} {target : Expr} {name : String} (regular : t.Regular knows)
    (of : PropertyAccess.of? t = some a) (writes : target.Writes E knows Γ K)
    (reference : target.type.isPrimitive = false) :
    Steady (a.read target name) fun r => a.type name = .ok r.type ∧
      r.Writes E knows Γ (Followed K (Gets a name r.type)) := by
  have wide := writes.regular.width reference
  refine steadyBind (steadyLift (P := fun t => a.type name = .ok t) ?_ fun _ h => h) ?_
  · intro err failed
    rcases propertyCases regular of with ⟨cls, fields, rfl, _, _⟩ | rfl | ⟨value, rfl, _, _⟩ | rfl
    · unfold PropertyAccess.type at failed
      cases found : Ty.fieldNamed? fields name with
      | some f =>
        simp only [found] at failed
        contradiction
      | none =>
        simp only [found] at failed
        cases failed
        rfl
    · contradiction
    · contradiction
    · contradiction
  · intro type is
    rcases propertyCases regular of with ⟨cls, fields, rfl, known, all⟩ | rfl | ⟨value, rfl, element, held⟩ | rfl
    · unfold PropertyAccess.type at is ⊢
      cases found : Ty.fieldNamed? fields name with
      | none =>
        simp only [found] at is
        contradiction
      | some f =>
        simp only [found] at is ⊢
        cases is
        refine steadyPure ⟨rfl, fieldRegular all found, emitsOf ?_⟩
        intro fs e visible walk
        simp only [Emit.outBind]
        refine walk.outPart writes.emits visible ?_
        intro e₁ B shape walk
        rw [wide] at walk
        refine walk.outMember rfl rfl rfl rfl known (Nat.le_refl _) ?_
        intro e₂ walk
        exact walk.finished ⟨B, _, shape, ⟨f, found, rfl⟩, rfl⟩ (by simp) (Nat.zero_add _) fun _ h => h
    · cases is
      refine steadyPure ⟨rfl, .atom, emitsOf ?_⟩
      intro fs e visible walk
      simp only [Emit.outBind]
      refine walk.outPart writes.emits visible ?_
      intro e₁ B shape walk
      rw [wide] at walk
      refine walk.outPlain ⟨rfl, rfl, rfl, rfl⟩ (Nat.zero_le _) ?_
      intro e₂ walk
      refine walk.outPlain ⟨rfl, rfl, rfl, rfl⟩ (Nat.le_refl _) ?_
      intro e₃ walk
      exact walk.finished ⟨B, _, shape, rfl, rfl⟩ (by simp) rfl fun _ h => h
    · cases is
      have width : value.orNull.width = 1 := by
        rw [Ty.orNull, Ty.withNullWidth]
        exact element.width held
      refine steadyPure ⟨rfl, element.withNull true, emitsOf ?_⟩
      intro fs e visible walk
      simp only [Emit.outBind]
      refine walk.outPart writes.emits visible ?_
      intro e₁ B shape walk
      rw [wide] at walk
      refine walk.outPlain ⟨rfl, rfl, rfl, rfl⟩ (Nat.zero_le _) ?_
      intro e₂ walk
      refine walk.outPlain ⟨rfl, rfl, rfl, rfl⟩ (Nat.le_refl _) ?_
      intro e₃ walk
      refine Walk.outDowncast (k := 0) walk ?_
      intro e₄ walk
      exact walk.finished ⟨B, _, shape, rfl, rfl⟩ (by simp) width.symm fun _ h => h
    · cases is
      refine steadyBind (steadyDynamic _) ?_
      rintro o ⟨site, same⟩
      cases same
      refine steadyPure ⟨rfl, .atom, emitsOf ?_⟩
      intro fs e visible walk
      simp only [Emit.outBind]
      refine walk.outPart writes.emits visible ?_
      intro e₁ B shape walk
      rw [wide] at walk
      refine walk.outPlain ⟨rfl, rfl, rfl, rfl⟩ (Nat.le_refl _) ?_
      intro e₂ walk
      refine Walk.outDowncast (k := 0) walk ?_
      intro e₃ walk
      exact walk.finished ⟨B, _, shape, ⟨site, rfl⟩, rfl⟩ (by simp) rfl fun _ h => h

def IndexOp (a : IndexAccess) (o : Op) : Prop :=
  match a with
  | .list _ => o = .native .listGet
  | .map .. => o = .native .mapGet
  | .record => o = .native .recordGet
  | .dynamic => ∃ site, o = .dynamic site .index

theorem indexOpSteady (a : IndexAccess) : Steady a.op (IndexOp a) := by
  cases a with
  | dynamic => exact steadyDynamic .index
  | _ => exact steadyPure rfl

theorem indexOpPlain {a : IndexAccess} {o : Op} (is : IndexOp a o) : o.Plain ∧ o.effect = (2, 1) := by
  cases a with
  | dynamic =>
    obtain ⟨site, rfl⟩ := is
    exact ⟨⟨rfl, rfl, rfl, rfl⟩, rfl⟩
  | _ =>
    cases is
    exact ⟨⟨rfl, rfl, rfl, rfl⟩, rfl⟩

theorem indexTypes {t : Ty} {a : IndexAccess} (regular : t.Regular knows) (of : IndexAccess.of? t = some a) :
    a.itemType.Regular knows ∧ a.itemType.width = 1 ∧ a.keyType.width = 1 := by
  cases regular with
  | prim => contradiction
  | @atom n a =>
    cases a with
    | record =>
      cases of
      exact ⟨.atom, rfl, rfl⟩
    | any =>
      cases of
      exact ⟨.atom, rfl, rfl⟩
    | _ => contradiction
  | list element reference =>
    cases of
    exact ⟨element.withNull true, (Ty.withNullWidth _ true).trans (element.width reference), rfl⟩
  | map key k value v =>
    cases of
    exact ⟨value.withNull true, (Ty.withNullWidth _ true).trans (value.width v), key.width k⟩
  | struct => contradiction

def Indexed (K K' : Slots → Asm → Prop) (a : IndexAccess) (key : Ty) (σ : Slots) (X : Asm) : Prop :=
  ∃ B C o, K σ B ∧ Converted K' a.keyType key σ C ∧ IndexOp a o ∧ X = B ++ C ++ [.op o] ++ Asm.downcast a.itemType

theorem indexSteady {t : Ty} {a : IndexAccess} {target key : Expr} (regular : t.Regular knows)
    (of : IndexAccess.of? t = some a) (writes : target.Writes E knows Γ K) (reference : target.type.isPrimitive = false)
    (keyWrites : key.Writes E knows Γ K')
    (may : castOps? a.keyType key.type = none → ∀ a b, E (.of (.incompatibleCast a b))) :
    Steady (a.read target key) fun r => r.type = a.itemType ∧ r.Writes E knows Γ (Indexed K K' a key.type) := by
  obtain ⟨item, itemWidth, keyWidth⟩ := indexTypes regular of
  refine steadyBind (indexOpSteady a) ?_
  intro o is
  obtain ⟨plain, effect⟩ := indexOpPlain is
  refine steadyPure ⟨rfl, item, emitsOf ?_⟩
  intro fs e visible walk
  simp only [Emit.outBind]
  refine walk.outPart writes.emits visible ?_
  intro e₁ B shape walk
  refine walk.outAs keyWrites visible may ?_
  intro e₂ C converted walk
  rw [writes.regular.width reference, keyWidth] at walk
  refine walk.outPlain plain (by simp [effect]) ?_
  intro e₃ walk
  simp only [after, effect] at walk
  refine Walk.outDowncast (k := 0) walk ?_
  intro e₄ walk
  exact walk.finished ⟨B, C, o, shape, converted, is, rfl⟩ (by simp) itemWidth.symm fun _ h => h

theorem lengthWrites {target : Expr} (writes : target.Writes E knows Γ K) (reference : target.type.isPrimitive = false) :
    (Expr.mk .int32 (do
      target.generate
      Emit.op (.native .length))).Writes E knows Γ (Followed K (· = [.op (.native .length)])) := by
  refine ⟨.prim, emitsOf ?_⟩
  intro fs e visible walk
  simp only [Emit.outBind]
  refine walk.outPart writes.emits visible ?_
  intro e₁ B shape walk
  rw [writes.regular.width reference] at walk
  refine walk.outPlain ⟨rfl, rfl, rfl, rfl⟩ (Nat.le_refl _) ?_
  intro e₂ walk
  exact walk.finished ⟨B, _, shape, rfl, rfl⟩ (by simp) rfl fun _ h => h

/-! ### Casts -/

theorem checkCastSteady (target source : Ty) :
    Steady (Build.checkCast target source) fun _ => ∃ os, castOps? target source = some os := by
  unfold Build.checkCast
  rcases castIs target source with ⟨os, is, same⟩ | ⟨is, a, b, same⟩
  · refine steadyLift ?_ fun _ _ => ⟨os, is⟩
    intro err failed
    rw [same] at failed
    contradiction
  · refine steadyLift ?_ ?_
    · intro err failed
      rw [same] at failed
      cases failed
      rfl
    · intro v done
      rw [same] at done
      contradiction

theorem castNonNull (target source : Ty) : castOps? target source.nonNull = castOps? target source := by
  have rep : source.nonNull.rep = source.rep := by
    cases source with
    | atom n a => cases a <;> rfl
    | carrier n c t => cases c <;> rfl
    | _ => rfl
  unfold castOps? checkOps?
  rw [rep]
  cases source <;> rfl

def BoxedCast (K : Slots → Asm → Prop) (p : Prim) (source : Ty) (σ : Slots) (X : Asm) : Prop :=
  ∃ B isNull done present os, K σ B ∧ castOps? (.prim p) source = some os ∧
    X = B ++ Asm.nullTest source isNull present ++ Asm.straight os ++
      [.op (.box p), .op (.jump done), .mark isNull, .op .constNull, .mark done]

theorem castSteady {x : Expr} {t : Ty} (writes : x.Writes E knows Γ K) (regular : t.Regular knows) :
    Steady (Build.cast x t) fun r =>
      (∃ p, x.type.isNullable = true ∧ t = .prim p ∧ r.type = .boxedOf p ∧
        r.Writes E knows Γ (BoxedCast K p x.type)) ∨
      (x.type.isNullable = true → t.isPrimitive = false) ∧ r.type = t ∧
        r.Writes E knows Γ (Converted K t x.type) := by
  unfold Build.cast
  split
  · next p nullable =>
    refine steadyBind (checkCastSteady _ _) ?_
    rintro _ ⟨os, converts⟩
    rw [castNonNull] at converts
    refine steadyPure (.inl ⟨p, nullable, rfl, rfl, .atom, emitsOf ?_⟩)
    intro fs e visible walk
    simp only [Emit.outBind]
    refine walk.outLabel 0 ?_
    intro isNull e₁ _ walk
    refine walk.outLabel 1 ?_
    intro done e₂ fresh walk
    refine walk.outPart writes.emits visible ?_
    intro e₃ B shape walk
    refine walk.outCastOrNull writes.regular.sized (by simp) (by simp [converts]) ?_
    intro e₄ present os is walk
    rw [Ty.widthPrim, Nat.zero_add] at walk
    refine walk.outPlain ⟨rfl, rfl, rfl, rfl⟩ (Nat.le_refl _) ?_
    intro e₅ walk
    have one : after (.box p) p.width = 1 := by simp [after, Op.effect]
    rw [one] at walk
    refine walk.outJump (by simp) ?_
    intro e₆ walk
    refine walk.outMark (.inr (.inl rfl)) (List.mem_cons_of_mem _ List.mem_cons_self) (.inl rfl) ?_
    intro e₇ walk
    refine walk.outPlain ⟨rfl, rfl, rfl, rfl⟩ (Nat.zero_le _) ?_
    intro e₈ walk
    refine walk.outMark ⟨.inl rfl, fun h => fresh (.inl h)⟩ List.mem_cons_self (.inr rfl) ?_
    intro e₉ walk
    refine walk.finished ⟨B, isNull, done, present, os, shape, is, rfl⟩ (by simp) rfl ?_
    intro l waits
    exact (waits.1.1.resolve_left waits.2).elim waits.1.2 id
  · next t _ _ other =>
    refine steadyBind (checkCastSteady _ _) ?_
    rintro _ ⟨os, converts⟩
    refine steadyPure (.inr ⟨?_, ?_⟩)
    · intro nullable
      cases t with
      | prim p => exact (other p nullable rfl).elim
      | _ => rfl
    · unfold Expr.cast
      split
      · next same =>
        refine ⟨same, writes.regular, writes.emits.mono ?_⟩
        intro σ X shape
        refine ⟨X, [], shape, ?_, (List.append_nil X).symm⟩
        rw [same]
        exact if_pos rfl
      · refine ⟨rfl, regular, emitsOf ?_⟩
        intro fs e visible walk
        refine walk.outAs writes visible (by simp [converts]) ?_
        intro e₁ B converted walk
        exact walk.finished converted rfl (Nat.zero_add _) fun _ h => h

/-! ### Collections -/

section

variable {ι : Type} {items : List ι} {expr key value : ι → Expr} {K K' : ι → Slots → Asm → Prop}

def Element (K : Slots → Asm → Prop) (elem source : Ty) (σ : Slots) (X : Asm) : Prop :=
  ∃ C, Converted K elem source σ C ∧ X = C ++ Asm.box elem

theorem outElement {mode : Option Nat} {fs : Frames} {e₀ e : Emitter} {σ : Slots} {A : Asm} {Λ : List (Label × Nat)}
    {W : Label → Prop} {k : Nat} {Q : Unit → Emitter → Prop} {x : Expr} {elem : Ty} {K : Slots → Asm → Prop}
    (writes : x.Writes E knows Γ K) (sized : elem ≠ .void)
    (may : castOps? elem x.type = none → ∀ a b, E (.of (.incompatibleCast a b))) (visible : Γ fs σ)
    (walk : Walk knows mode e₀ e σ A Λ W (some k))
    (next : ∀ e' B, Element K elem x.type σ B → Walk knows mode e₀ e' σ (A ++ B) Λ W (some (k + 1)) → Q () e') :
    Out (Build.generateElement elem x) fs e E Q := by
  unfold Build.generateElement
  rw [Emit.outBind]
  refine walk.outAs writes visible may ?_
  intro e₁ C converted walk
  refine walk.outBox sized ?_
  intro e₂ walk
  exact next e₂ _ ⟨C, converted, rfl⟩ (by simpa using walk)

def Added (K : Slots → Asm → Prop) (elem source : Ty) (σ : Slots) (X : Asm) : Prop :=
  ∃ C, Element K elem source σ C ∧ X = [.op (.dup 1)] ++ C ++ [.op (.native .listAdd)]

theorem unifiedRegular (writes : ∀ i ∈ items, (expr i).Writes E knows Γ (K i)) :
    (Ty.unifyOrAny (items.map fun i => (expr i).type)).Regular knows := by
  refine Ty.regularHereditary.unifyOrAny ?_
  intro t inside
  obtain ⟨i, member, rfl⟩ := List.mem_map.1 inside
  exact (writes i member).regular

theorem listWrites (writes : ∀ i ∈ items, (expr i).Writes E knows Γ (K i))
    (may : ∀ i ∈ items, castOps? (Ty.unifyOrAny (items.map fun i => (expr i).type)) (expr i).type = none →
      ∀ a b, E (.of (.incompatibleCast a b))) :
    (Build.list (items.map expr)).Writes E knows Γ fun σ X => ∃ B,
      Each (fun i => Added (K i) (Ty.unifyOrAny (items.map fun i => (expr i).type)) (expr i).type σ) items B ∧
        X = [.op (.native .newList)] ++ B := by
  have types : (items.map expr).map (·.type) = items.map fun i => (expr i).type := List.map_map
  have elem := unifiedRegular writes
  unfold Build.list Build.filled
  rw [types]
  refine ⟨elem.listOf.withNull false, emitsOf ?_⟩
  intro fs e visible walk
  simp only [Emit.outBind, Emit.forMMap]
  refine walk.outPlain ⟨rfl, rfl, rfl, rfl⟩ (Nat.zero_le _) ?_
  intro e₁ walk
  refine Walk.outForM (k := 1)
    (R := fun i => Added (K i) (Ty.unifyOrAny (items.map fun i => (expr i).type)) (expr i).type e.slots) ?_ walk ?_
  · intro i inside e' A Q walk next
    simp only [Emit.outBind]
    refine walk.outPlain ⟨rfl, rfl, rfl, rfl⟩ (Nat.le_refl _) ?_
    intro e₂ walk
    refine outElement (writes i inside) elem.sized (may i inside) visible walk ?_
    intro e₃ C element walk
    refine walk.outPlain ⟨rfl, rfl, rfl, rfl⟩ (Nat.le_add_left 2 1) ?_
    intro e₄ walk
    exact next e₄ _ ⟨C, element, rfl⟩ (by simpa [after, Op.effect, Native.effect] using walk)
  · intro e₂ B pieces walk
    exact walk.finished ⟨B, pieces, rfl⟩ (by simp) rfl fun _ h => h

def Paired (K K' : Slots → Asm → Prop) (key value k v : Ty) (σ : Slots) (X : Asm) : Prop :=
  ∃ C D, Element K key k σ C ∧ Element K' value v σ D ∧ X = [.op (.dup 1)] ++ C ++ D ++ [.op (.native .mapPut)]

theorem mapWrites (keys : ∀ i ∈ items, (key i).Writes E knows Γ (K i))
    (values : ∀ i ∈ items, (value i).Writes E knows Γ (K' i))
    (mayKey : ∀ i ∈ items, castOps? (Ty.unifyOrAny (items.map fun i => (key i).type)) (key i).type = none →
      ∀ a b, E (.of (.incompatibleCast a b)))
    (mayValue : ∀ i ∈ items, castOps? (Ty.unifyOrAny (items.map fun i => (value i).type)) (value i).type = none →
      ∀ a b, E (.of (.incompatibleCast a b))) :
    (Build.map (items.map fun i => (key i, value i))).Writes E knows Γ fun σ X => ∃ B,
      Each (fun i => Paired (K i) (K' i) (Ty.unifyOrAny (items.map fun i => (key i).type))
        (Ty.unifyOrAny (items.map fun i => (value i).type)) (key i).type (value i).type σ) items B ∧
        X = [.op (.native .newMap)] ++ B := by
  have k := unifiedRegular keys
  have v := unifiedRegular values
  have keyTypes : (items.map fun i => (key i, value i)).map (·.1.type) = items.map fun i => (key i).type := List.map_map
  have valueTypes : (items.map fun i => (key i, value i)).map (·.2.type) = items.map fun i => (value i).type := List.map_map
  unfold Build.map
  rw [keyTypes, valueTypes]
  refine ⟨(k.mapOf v).withNull false, emitsOf ?_⟩
  intro fs e visible walk
  simp only [Emit.outBind, Emit.forMMap]
  refine walk.outPlain ⟨rfl, rfl, rfl, rfl⟩ (Nat.zero_le _) ?_
  intro e₁ walk
  refine Walk.outForM (k := 1) (R := fun i => Paired (K i) (K' i) (Ty.unifyOrAny (items.map fun i => (key i).type))
    (Ty.unifyOrAny (items.map fun i => (value i).type)) (key i).type (value i).type e.slots) ?_ walk ?_
  · intro i inside e' A Q walk next
    simp only [Emit.outBind]
    refine walk.outPlain ⟨rfl, rfl, rfl, rfl⟩ (Nat.le_refl _) ?_
    intro e₂ walk
    refine outElement (keys i inside) k.sized (mayKey i inside) visible walk ?_
    intro e₃ C element walk
    refine outElement (values i inside) v.sized (mayValue i inside) visible walk ?_
    intro e₄ D element' walk
    refine walk.outPlain ⟨rfl, rfl, rfl, rfl⟩ (Nat.le_add_left 3 1) ?_
    intro e₅ walk
    exact next e₅ _ ⟨C, D, element, element', rfl⟩ (by simpa [after, Op.effect, Native.effect] using walk)
  · intro e₂ B pieces walk
    exact walk.finished ⟨B, pieces, rfl⟩ (by simp) rfl fun _ h => h

end

end QueryMachine
