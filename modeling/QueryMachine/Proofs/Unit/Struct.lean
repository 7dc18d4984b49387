import QueryMachine.Proofs.Build.Basic
import QueryMachine.Proofs.Code.Switch
import QueryMachine.Proofs.Unit.Method
import QueryMachine.Unit.Struct

/-! The methods of struct units. Their bodies dispatch on the name of a field, so the walk goes over as many labels
as there are fields. -/
namespace QueryMachine

open Emit (Out)
open Verify (after)

variable {E : Error → Prop} {knows : String → Prop} {mode : Option Nat} {fs : Frames} {e₀ e : Emitter} {σ : Slots}
  {A : Asm} {Λ : List (Label × Nat)} {W : Label → Prop} {c : Option Nat} {Q : Unit → Emitter → Prop}

def Op.reads : Op → Bool
  | .load _ | .store _ | .dup _ | .pop _ | .const _ | .getField _ | .box _ | .jump _ | .ifZero .. | .ifNonNull _
  | .lookup .. | .ret _ | .throw => true
  | .native n => match n with
    | .stringUpper | .stringHash | .stringEquals | .propertyNotFound => true
    | _ => false
  | _ => false

def Asm.All (P : Op → Prop) (A : Asm) : Prop := ∀ o ∈ Asm.ops A, P o

theorem Asm.allAppend {P : Op → Prop} {A B : Asm} (first : A.All P) (second : B.All P) : (A ++ B : Asm).All P := by
  intro o inside
  rw [Asm.opsAppend, List.mem_append] at inside
  exact inside.elim (first o) (second o)

namespace Emit

def Within (made : List (Label × Nat)) (cases : List (String × Label)) : Prop := ∀ x ∈ cases, (x.2, 0) ∈ made

def addCase (table : List (Int32 × List (String × Label))) (x : String × Label) : List (Int32 × List (String × Label)) :=
  insertCase (Text.Units.hash (Text.Uppercase.text x.1))
    (((table.lookup (Text.Units.hash (Text.Uppercase.text x.1))).getD []) ++ [(Text.Uppercase.text x.1, x.2)]) table

theorem addCaseWithin {table : List (Int32 × List (String × Label))} {x : String × Label}
    (all : ∀ y ∈ table, Within Λ y.2) (new : (x.2, 0) ∈ Λ) : ∀ y ∈ addCase table x, Within Λ y.2 := by
  intro y inside
  rcases insertMem inside with rfl | old
  · intro z here
    rw [List.mem_append] at here
    rcases here with before | last
    · cases found : table.lookup (Text.Units.hash (Text.Uppercase.text x.1)) with
      | none => simp [found] at before
      | some entries =>
        rw [found] at before
        have member : (Text.Units.hash (Text.Uppercase.text x.1), entries) ∈ table := by
          obtain ⟨l₁, l₂, same, _⟩ := List.lookup_eq_some_iff.1 found
          simp [same]
        exact all _ member z before
    · rw [List.mem_singleton.1 last]
      exact new
  · exact all y old

theorem bucketsWithin {cases : List (String × Label)} (within : Within Λ cases) :
    ∀ y ∈ buckets cases, Within Λ y.2 := by
  have fold : ∀ (cases : List (String × Label)) (table : List (Int32 × List (String × Label))), Within Λ cases →
      (∀ y ∈ table, Within Λ y.2) → ∀ y ∈ cases.foldl addCase table, Within Λ y.2 := by
    intro cases
    induction cases with
    | nil => exact fun table _ all => all
    | cons x cases ih =>
      intro table within all
      refine ih _ (fun y inside => within y (List.mem_cons_of_mem x inside)) ?_
      exact addCaseWithin all (within x List.mem_cons_self)
  exact fold cases [] within nofun

end Emit

namespace Walk

theorem outSections {ι : Type} {P : Op → Prop} {items : List (ι × Label)} {f : ι → Emit Unit}
    (each : ∀ x ∈ items, ∀ e A W (Q : Unit → Emitter → Prop), Walk knows mode e₀ e σ A Λ W (some 0) →
      (∀ e' B, Asm.All P B → Walk knows mode e₀ e' σ (A ++ B) Λ W none → Q () e') → Out (f x.1) fs e E Q)
    (distinct : (items.map (·.2)).Nodup) (made : ∀ x ∈ items, (x.2, 0) ∈ Λ) (fresh : ∀ x ∈ items, ¬ W x.2)
    (walk : Walk knows mode e₀ e σ A Λ (fun l => l ∈ items.map (·.2) ∨ W l) none)
    (next : ∀ e' B, Asm.All P B → Walk knows mode e₀ e' σ (A ++ B) Λ W none → Q () e') :
    Out (items.forM fun x => do
      Emit.mark x.2
      f x.1) fs e E Q := by
  induction items generalizing e A with
  | nil => exact next e [] nofun (by simpa using walk)
  | cons x items ih =>
    rw [Emit.forMCons, Emit.outBind, Emit.outBind]
    rw [List.map_cons, List.nodup_cons] at distinct
    refine walk.outMark (.inl List.mem_cons_self) (made x List.mem_cons_self) (.inl rfl) ?_
    intro e₁ walk
    refine each x List.mem_cons_self e₁ _ _ _ walk ?_
    intro e₂ B all walk
    refine ih (fun y inside => each y (List.mem_cons_of_mem x inside)) distinct.2
      (fun y inside => made y (List.mem_cons_of_mem x inside)) (fun y inside => fresh y (List.mem_cons_of_mem x inside))
      (walk.forget (List.Subset.refl _) ?_) ?_
    · intro l
      rw [List.map_cons, List.mem_cons]
      constructor
      · intro h
        exact h.1.imp (·.resolve_left h.2) id
      · intro h
        refine ⟨h.imp .inr id, ?_⟩
        rintro rfl
        exact h.elim distinct.1 (fresh x List.mem_cons_self)
    · intro e₃ C rest walk
      refine next e₃ ([.mark x.2] ++ B ++ C) (Asm.allAppend (Asm.allAppend nofun all) rest) ?_
      simpa using walk

theorem outLoadTemp {s k : Nat} (low : s < σ.next) (walk : Walk knows mode e₀ e σ A Λ W (some k))
    (next : ∀ e', Walk knows mode e₀ e' σ (A ++ [.op (.load s)]) Λ W (some (k + 1)) → Q () e') :
    Out (Emit.op (.load s)) fs e E Q :=
  walk.outOp (fitsSlot rfl rfl rfl nofun (Nat.zero_le k) (Nat.lt_of_lt_of_le low walk.room)) next

theorem outStoreTemp {s k : Nat} (low : s < σ.next) (walk : Walk knows mode e₀ e σ A Λ W (some (k + 1)))
    (next : ∀ e', Walk knows mode e₀ e' σ (A ++ [.op (.store s)]) Λ W (some k) → Q () e') :
    Out (Emit.op (.store s)) fs e E Q :=
  walk.outOp (fitsSlot rfl rfl rfl nofun (Nat.le_add_left 1 k) (Nat.lt_of_lt_of_le low walk.room)) next

theorem outBucket {P : Op → Prop} {entries : List (String × Label)} {default : Label} {held : Nat}
    (reads : ∀ o, Op.reads o = true → P o) (within : Emit.Within Λ entries) (default_ : (default, 0) ∈ Λ)
    (low : held < σ.next) (walk : Walk knows mode e₀ e σ A Λ W (some 0))
    (next : ∀ e' B, Asm.All P B → Walk knows mode e₀ e' σ (A ++ B) Λ W none → Q () e') :
    Out (do
      entries.forM fun (name, target) =>
        Emit.ops [.const (.string name), .load held, .native .stringEquals, .ifZero .ne target]
      Emit.jump default) fs e E Q := by
  induction entries generalizing e A with
  | nil =>
    rw [Emit.forMNil, Emit.outBind, Emit.outPure]
    refine walk.outJump default_ ?_
    intro e₁ walk
    refine next e₁ _ ?_ walk
    intro o member
    rw [List.mem_singleton.1 member]
    exact reads _ rfl
  | cons x entries ih =>
    rw [Emit.outBind, Emit.forMCons]
    simp only [Emit.opsCons, Emit.opsNil, Emit.outBind, Emit.outPure] at ih ⊢
    refine walk.outPlain ⟨rfl, rfl, rfl, rfl⟩ (Nat.zero_le _) ?_
    intro e₁ walk
    refine outLoadTemp low walk ?_
    intro e₂ walk
    refine walk.outPlain ⟨rfl, rfl, rfl, rfl⟩ (Nat.le_refl _) ?_
    intro e₃ walk
    refine Walk.outIfZero (k := 0) walk (within x List.mem_cons_self) ?_
    intro e₄ walk
    refine ih (fun y inside => within y (List.mem_cons_of_mem x inside)) walk ?_
    intro e₅ B all walk
    refine next e₅ ([.op (.const (.string x.1)), .op (.load held), .op (.native .stringEquals), .op (.ifZero .ne x.2)] ++ B)
      (Asm.allAppend ?_ all) (by simpa using walk)
    intro o member
    simp only [Asm.opsOp, Asm.opsNil, List.mem_cons, List.not_mem_nil, or_false] at member
    rcases member with rfl | rfl | rfl | rfl <;> exact reads _ rfl

theorem outSwitch {P : Op → Prop} {cases : List (String × Label)} {default : Label}
    (reads : ∀ o, Op.reads o = true → P o) (within : Emit.Within Λ cases) (default_ : (default, 0) ∈ Λ)
    (walk : Walk knows mode e₀ e σ A Λ W (some 1))
    (next : ∀ e' B, Asm.All P B → Walk knows mode e₀ e' (σ.temp 1) (A ++ B) Λ W none → Q () e') :
    Out (Emit.stringSwitch cases default) fs e E Q := by
  unfold Emit.stringSwitch
  simp only [Emit.outBind, Emit.opsCons, Emit.opsNil, Emit.outPure]
  refine walk.outTemp ?_
  intro e₁ walk
  have low : σ.next < (σ.temp 1).next := Nat.lt_succ_self _
  refine walk.outLabel 1 ?_
  intro nonNull e₂ fresh walk
  refine walk.outPlain ⟨rfl, rfl, rfl, rfl⟩ (Nat.le_refl _) ?_
  intro e₃ walk
  refine Walk.outIfNonNull (k := 1) walk List.mem_cons_self ?_
  intro e₄ walk
  refine walk.outPlain ⟨rfl, rfl, rfl, rfl⟩ (Nat.le_refl _) ?_
  intro e₅ walk
  refine walk.outJump (List.mem_cons_of_mem _ default_) ?_
  intro e₆ walk
  refine walk.outMark (.inl rfl) List.mem_cons_self (.inl rfl) ?_
  intro e₇ walk
  refine walk.outPlain ⟨rfl, rfl, rfl, rfl⟩ (Nat.le_refl _) ?_
  intro e₈ walk
  refine walk.outPlain ⟨rfl, rfl, rfl, rfl⟩ (Nat.le_refl _) ?_
  intro e₉ walk
  refine Walk.outStoreTemp (k := 1) low walk ?_
  intro e₁₀ walk
  refine walk.outPlain ⟨rfl, rfl, rfl, rfl⟩ (Nat.le_refl _) ?_
  intro e₁₁ walk
  have walk := walk.closed fresh
  refine walk.outLabels 0 (Emit.buckets cases).length ?_
  intro labels e₁₂ length distinct others walk
  have seconds : ((Emit.buckets cases).zip labels).map (·.2) = labels := List.map_snd_zip (Nat.le_of_eq length)
  have inside : ∀ x ∈ (Emit.buckets cases).zip labels, x.1 ∈ Emit.buckets cases ∧ x.2 ∈ labels :=
    fun x member => ⟨(List.of_mem_zip member).1, (List.of_mem_zip member).2⟩
  have made : ∀ l ∈ labels, (l, 0) ∈ labels.map (·, 0) ++ Λ :=
    fun l member => List.mem_append_left _ (List.mem_map_of_mem member)
  refine Walk.outLookup (k := 0) walk ?_ (List.mem_append_right _ default_) ?_
  · intro entry member
    obtain ⟨x, here, rfl⟩ := List.mem_map.1 member
    exact made _ (inside x here).2
  intro e₁₃ walk
  change Out (((Emit.buckets cases).zip labels).forM fun x => do
    Emit.mark x.2
    x.1.2.forM fun c => Emit.ops [.const (.string c.1), .load σ.next, .native .stringEquals, .ifZero .ne c.2]
    Emit.jump default) fs e₁₃ E Q
  refine outSections (P := P) (W := W) (f := fun y => do
    y.2.forM fun c => Emit.ops [.const (.string c.1), .load σ.next, .native .stringEquals, .ifZero .ne c.2]
    Emit.jump default) ?_ (by rw [seconds]; exact distinct) (fun x member => made _ (inside x member).2)
    (fun x member => others _ (inside x member).2) (by rw [seconds]; exact walk) ?_
  · intro x member e A W Q walk next
    refine outBucket reads ?_ (List.mem_append_right _ default_) low walk next
    intro y here
    exact List.mem_append_right _ (Emit.bucketsWithin within x.1 (inside x member).1 y here)
  · intro e₁₄ B all walk
    refine next e₁₄ ([.op (.dup 1), .op (.ifNonNull nonNull), .op (.pop 1), .op (.jump default), .mark nonNull,
      .op (.native .stringUpper), .op (.dup 1), .op (.store σ.next), .op (.native .stringHash),
      .op (.lookup (((Emit.buckets cases).zip labels).map fun b => (b.1.1, b.2)) default)] ++ B)
      (Asm.allAppend ?_ all) (by simpa using walk.forget (List.subset_append_right _ _) fun _ => Iff.rfl)
    intro o member
    simp only [Asm.opsOp, Asm.opsMark, Asm.opsNil, List.mem_cons, List.not_mem_nil, or_false] at member
    rcases member with rfl | rfl | rfl | rfl | rfl | rfl | rfl | rfl | rfl <;> exact reads _ rfl

end Walk

namespace Struct

variable {P : Op → Prop} {fields : List (String × Ty)}

theorem outDispatch {name : Local} {s : Nat} {found : String × Ty → Emit Unit}
    (reads : ∀ o, Op.reads o = true → P o) (holds : σ.Holds name s)
    (each : ∀ field ∈ fields, ∀ e A Λ W (Q : Unit → Emitter → Prop),
      Walk knows mode e₀ e (σ.temp 1) A Λ W (some 0) →
      (∀ e' B, Asm.All P B → Walk knows mode e₀ e' (σ.temp 1) (A ++ B) Λ W none → Q () e') → Out (found field) fs e E Q)
    (walk : Walk knows mode e₀ e σ A Λ W (some 0))
    (next : ∀ e' B, Asm.All P B → Walk knows mode e₀ e' (σ.temp 1) (A ++ B) Λ W none → Q () e') :
    Out (dispatch name fields found) fs e E Q := by
  unfold dispatch
  simp only [Emit.outBind, Emit.opsCons, Emit.opsNil, Emit.outPure]
  refine walk.outSlot holds ?_
  refine walk.outLabel 0 ?_
  intro missing e₁ fresh walk
  refine walk.outLabels 0 fields.length ?_
  intro labels e₂ length distinct others walk
  have seconds : (fields.zip labels).map (·.2) = labels := List.map_snd_zip (Nat.le_of_eq length)
  have inside : ∀ x ∈ fields.zip labels, x.1 ∈ fields ∧ x.2 ∈ labels :=
    fun x member => ⟨(List.of_mem_zip member).1, (List.of_mem_zip member).2⟩
  have made : ∀ l ∈ labels, (l, 0) ∈ labels.map (·, 0) ++ (missing, 0) :: Λ :=
    fun l member => List.mem_append_left _ (List.mem_map_of_mem member)
  refine walk.outLoadSlot holds ?_
  intro e₃ walk
  refine walk.outSwitch reads ?_ (List.mem_append_right _ List.mem_cons_self) ?_
  · intro x member
    obtain ⟨y, there, rfl⟩ := List.mem_map.1 member
    exact made _ (inside y there).2
  intro e₄ B switch walk
  change Out ((fields.zip labels).forM fun x => do
    Emit.mark x.2
    found x.1) fs e₄ E _
  refine Walk.outSections (P := P) (W := fun x => x = missing ∨ W x) ?_ (by rw [seconds]; exact distinct)
    (fun x member => made _ (inside x member).2) (fun x member => others _ (inside x member).2)
    (by rw [seconds]; exact walk) ?_
  · intro x member e A W Q walk next
    exact each x.1 (inside x member).1 e A _ W Q walk next
  intro e₅ C sections walk
  refine walk.outMark (.inl rfl) (List.mem_append_right _ List.mem_cons_self) (.inl rfl) ?_
  intro e₆ walk
  have walk := Walk.closed (walk.forget (List.subset_append_right _ _) fun _ => Iff.rfl) fresh
  refine walk.outLoadSlot (Slots.tempHolds holds) ?_
  intro e₇ walk
  refine walk.outPlain ⟨rfl, rfl, rfl, rfl⟩ (Nat.le_refl _) ?_
  intro e₈ walk
  refine walk.outOp ⟨Nat.le_refl 1, by simp [Op.targets], by rintro _ _ ⟨⟩, by rintro _ ⟨⟩, by rintro _ ⟨⟩⟩ ?_
  intro e₉ walk
  refine next e₉ ([.op (.load s)] ++ B ++ C ++ [.mark missing, .op (.load s), .op (.native .propertyNotFound), .op .throw])
    (Asm.allAppend (Asm.allAppend (Asm.allAppend ?_ switch) sections) ?_)
    (by simpa [fallDepth, Op.fallsThrough] using walk)
  · intro o member
    rw [List.mem_singleton.1 member]
    exact reads _ rfl
  · intro o member
    simp only [Asm.opsOp, Asm.opsMark, Asm.opsNil, List.mem_cons, List.not_mem_nil, or_false] at member
    rcases member with rfl | rfl | rfl <;> exact reads _ rfl

theorem outReturn {n : Nat} (walk : Walk knows (some n) e₀ e σ A Λ W (some n))
    (next : ∀ e', Walk knows (some n) e₀ e' σ (A ++ [.op (.ret n)]) Λ W none → Q () e') :
    Out (Emit.op (.ret n)) fs e E Q := by
  refine walk.outOp ⟨Nat.le_refl n, nofun, nofun, ?_, nofun⟩ next
  intro m same
  cases same
  exact ⟨rfl, rfl⟩

theorem fillsOf {Γ : Frames → Slots → Prop} {returns : Nat} {K : Asm → Prop} {body : Seq}
    (from_ : ∀ fs e, Γ fs e.slots → Walk knows (some returns) .empty e e.slots [] [] (fun _ => False) (some 0) →
      Out body fs e E fun _ e' => ∃ A τ, K A ∧ τ.active = e.slots.active ∧ e.slots.next ≤ τ.next ∧
        Walk knows (some returns) .empty e' τ A [] (fun _ => False) none) :
    body.Fills E knows Γ returns fun _ A hs => K A ∧ hs = [] := by
  intro fs e visible walk
  refine (from_ fs e visible walk).mono ?_ fun _ h => h
  intro _ e' ⟨A, τ, shape, active, later, walk⟩
  have none : e'.handlers = [] := walk.handlers
  refine ⟨A, [], ⟨shape, rfl⟩, e', [], fun _ => False, τ, walk, fun _ h => h, active, later, nofun, ?_⟩
  rw [← none]

variable {cls : String} {this name value : Local}

def Placed (ls : List Local) (_ : Frames) (σ : Slots) : Prop := ∀ l ∈ ls, ∃ s, σ.Holds l s

theorem constructorFills {args : List Local} (known : knows cls) (sized : ∀ f ∈ fields, f.2 ≠ .void)
    (typed : ∀ x ∈ fields.zip args, x.2.type = x.1.2) :
    (constructorBody cls fields args).Fills E knows (Placed args) 1 fun _ _ hs => True ∧ hs = [] := by
  refine fillsOf ?_
  intro fs e placed walk
  unfold constructorBody
  simp only [Emit.outBind]
  refine walk.outMember rfl rfl rfl rfl known (Nat.zero_le _) ?_
  intro e₁ walk
  refine Walk.outForM (R := fun _ _ => True) (k := 1) ?_ walk ?_
  · intro x inside e A Q walk next
    obtain ⟨s, holds⟩ := placed x.2 (List.of_mem_zip inside).2
    have same := typed x inside
    simp only [Emit.outBind]
    refine walk.outPlain ⟨rfl, rfl, rfl, rfl⟩ (Nat.le_refl _) ?_
    intro e₂ walk
    refine walk.outSlot holds ?_
    rw [← same]
    refine Walk.outLoad (k := 2) walk holds ?_ ?_
    · rw [same]
      exact Nat.ne_of_gt (Ty.widthPos (sized x.1 (List.of_mem_zip inside).1))
    intro e₃ walk
    rw [same] at walk
    refine walk.outMember rfl rfl rfl rfl known ?_ ?_
    · change 1 + x.1.2.width ≤ _
      omega
    intro e₄ walk
    have back : after (.putField (fieldRef cls x.1)) (2 + x.1.2.width) = 1 := by
      simp only [after, Op.effect, fieldRef, Ty.width]
      omega
    rw [back] at walk
    exact next e₄ _ trivial (by simpa using walk)
  · intro e₂ B _ walk
    refine outReturn walk ?_
    intro e₃ walk
    exact ⟨_, _, trivial, rfl, Nat.le_refl _, walk⟩

theorem getterFills (known : knows cls) (sized : ∀ f ∈ fields, f.2 ≠ .void) :
    (getterBody cls fields this name).Fills E knows (Placed [this, name]) 1
      fun _ A hs => A.All (fun o => o.reads = true) ∧ hs = [] := by
  refine fillsOf ?_
  intro fs e placed walk
  obtain ⟨self, holdsThis⟩ := placed this List.mem_cons_self
  obtain ⟨s, holdsName⟩ := placed name (List.mem_cons_of_mem _ List.mem_cons_self)
  unfold getterBody
  rw [Emit.outBind]
  refine walk.outSlot holdsThis ?_
  refine outDispatch (P := fun o => o.reads = true) (fun _ h => h) holdsName ?_ walk ?_
  · intro field inside e A Λ W Q walk next
    simp only [Emit.opsCons, Emit.opsNil, Emit.outBind, Emit.outPure]
    refine walk.outLoadSlot (Slots.tempHolds holdsThis) ?_
    intro e₁ walk
    refine walk.outMember rfl rfl rfl rfl known (Nat.le_refl _) ?_
    intro e₂ walk
    refine Walk.outBox (k := 0) (sized field inside) walk ?_
    intro e₃ walk
    refine outReturn walk ?_
    intro e₄ walk
    refine next e₄ ([.op (.load self), .op (.getField (fieldRef cls field))] ++ Asm.box field.2 ++ [.op (.ret 1)])
      (Asm.allAppend (Asm.allAppend ?_ ?_) ?_) (by simpa using walk)
    · intro o member
      simp only [Asm.opsOp, Asm.opsNil, List.mem_cons, List.not_mem_nil, or_false] at member
      rcases member with rfl | rfl <;> rfl
    · intro o member
      cases type : field.2 with
      | prim p =>
        rw [type] at member
        rw [List.mem_singleton.1 member]
        rfl
      | _ =>
        rw [type] at member
        simp [Asm.box] at member
    · intro o member
      rw [List.mem_singleton.1 member]
      rfl
  · intro e₁ B all walk
    exact ⟨B, e.slots.temp 1, all, rfl, Nat.le_succ _, by simpa using walk⟩

theorem outGiven {t : Ty} {k : Nat} {rest : Emit Unit} (sized : t ≠ .void)
    (walk : Walk knows mode e₀ e σ A Λ W (some (k + 1)))
    (next : ∀ e' B, Walk knows mode e₀ e' σ (A ++ B) Λ W (some (k + t.width)) → Out rest fs e' E Q) :
    Out (if t.isPrimitive then do
        Emit.unbox t.boxed.nonNull
        rest
      else do
        Emit.downcast t
        rest) fs e E Q := by
  cases primitive : t.isPrimitive with
  | true =>
    cases t with
    | prim p =>
      rw [if_pos rfl, Emit.outBind]
      change Out (Emit.cast (.prim p) (.atom false (.boxed p))) fs e E _
      refine walk.outCast nofun ?_ ?_
      · intro fails
        cases p <;> contradiction
      · intro e' os _ walk
        exact next e' _ walk
    | _ => contradiction
  | false =>
    rw [if_neg (by decide), Emit.outBind]
    refine walk.outDowncast ?_
    intro e' walk
    exact next e' _ (by rw [Ty.referenceWidth sized primitive]; exact walk)

theorem setterFills (known : knows cls) (sized : ∀ f ∈ fields, f.2 ≠ .void) :
    (setterBody cls fields this name value).Fills E knows (Placed [this, name, value]) 0 fun _ _ hs => True ∧ hs = [] := by
  refine fillsOf ?_
  intro fs e placed walk
  obtain ⟨self, holdsThis⟩ := placed this List.mem_cons_self
  obtain ⟨s, holdsName⟩ := placed name (List.mem_cons_of_mem _ List.mem_cons_self)
  obtain ⟨given, holdsValue⟩ := placed value (List.mem_cons_of_mem _ (List.mem_cons_of_mem _ List.mem_cons_self))
  unfold setterBody
  simp only [Emit.outBind]
  refine walk.outSlot holdsThis ?_
  refine walk.outSlot holdsValue ?_
  refine outDispatch (P := fun _ => True) (fun _ _ => trivial) holdsName ?_ walk ?_
  · intro field inside e A Λ W Q walk next
    simp only [Emit.opsCons, Emit.opsNil, Emit.outBind, Emit.outPure]
    refine walk.outLoadSlot (Slots.tempHolds holdsThis) ?_
    intro e₁ walk
    refine walk.outLoadSlot (Slots.tempHolds holdsValue) ?_
    intro e₂ walk
    refine outGiven (sized field inside) walk ?_
    intro e₃ B walk
    simp only [Emit.outBind, Emit.outPure]
    refine walk.outMember rfl rfl rfl rfl known (Nat.le_refl _) ?_
    intro e₄ walk
    have empty : after (.putField (fieldRef cls field)) (0 + 1 + field.2.width) = 0 := by
      simp only [after, Op.effect, fieldRef, Ty.width]
      omega
    rw [empty] at walk
    refine outReturn walk ?_
    intro e₅ walk
    exact next e₅ _ (fun _ _ => trivial) (by simpa using walk)
  · intro e₁ B _ walk
    exact ⟨B, e.slots.temp 1, trivial, rfl, Nat.le_succ _, by simpa using walk⟩

theorem namesFills : (namesBody fields).Fills E knows (Placed []) 1 fun _ _ hs => True ∧ hs = [] := by
  refine fillsOf ?_
  intro fs e _ walk
  unfold namesBody
  simp only [Emit.outBind]
  refine walk.outPlain ⟨rfl, rfl, rfl, rfl⟩ (Nat.zero_le _) ?_
  intro e₁ walk
  refine Walk.outForM (R := fun _ _ => True) (k := 1) ?_ walk ?_
  · intro field _ e A Q walk next
    simp only [Emit.opsCons, Emit.opsNil, Emit.outBind, Emit.outPure]
    refine walk.outPlain ⟨rfl, rfl, rfl, rfl⟩ (Nat.le_refl _) ?_
    intro e₂ walk
    refine walk.outPlain ⟨rfl, rfl, rfl, rfl⟩ (Nat.zero_le _) ?_
    intro e₃ walk
    refine walk.outPlain ⟨rfl, rfl, rfl, rfl⟩ (Nat.le_succ 2) ?_
    intro e₄ walk
    rw [List.append_assoc, List.append_assoc] at walk
    exact next e₄ _ trivial walk
  · intro e₂ B _ walk
    refine outReturn walk ?_
    intro e₃ walk
    exact ⟨_, _, trivial, rfl, Nat.le_refl _, walk⟩

theorem placedLater {made made' : Frames} {receiver : Option Ty} {params : List (String × Ty)} {m : MethodDraft}
    (created : MethodDraft.Created made receiver params m made') (grows : made'.Grows fs) :
    Placed (m.receiver.toList ++ m.locals) fs (Slots.body fs m.frame) := by
  intro l inside
  obtain ⟨same, has⟩ := created.has l inside
  obtain ⟨s, holds, _⟩ := enteredHolds (σ := ⟨[], 0⟩) (has.later grows)
  rw [same] at holds
  exact ⟨s, holds⟩

section

variable (cls : String) (fields : List (String × Ty)) (type : Ty) (made : Frames)

def newDraft : MethodDraft × Frames := MethodDraft.create made cls "new" none fields type

def getDraft : MethodDraft × Frames := MethodDraft.create made cls "get" (some type) [("name", .string)] .any

def putDraft : MethodDraft × Frames := MethodDraft.create made cls "put" (some type) [("name", .string), ("value", .any)] .void

def namesDraft : MethodDraft × Frames := MethodDraft.create made cls "field_names" (some type) [] (.list .string)

def framesNew : Frames := (newDraft cls fields type made).2

def framesGet : Frames := (getDraft cls type (framesNew cls fields type made)).2

def framesPut : Frames := (putDraft cls type (framesGet cls fields type made)).2

def framesNames : Frames := (namesDraft cls type (framesPut cls fields type made)).2

theorem unitFrames : (unit cls fields type made).2 = framesNames cls fields type made := rfl

theorem newCreated : MethodDraft.Created made none fields (newDraft cls fields type made).1
    (framesNew cls fields type made) := MethodDraft.created ..

theorem getCreated : MethodDraft.Created (framesNew cls fields type made) (some type) [("name", .string)]
    (getDraft cls type (framesNew cls fields type made)).1 (framesGet cls fields type made) := MethodDraft.created ..

theorem putCreated : MethodDraft.Created (framesGet cls fields type made) (some type) [("name", .string), ("value", .any)]
    (putDraft cls type (framesGet cls fields type made)).1 (framesPut cls fields type made) := MethodDraft.created ..

theorem namesCreated : MethodDraft.Created (framesPut cls fields type made) (some type) []
    (namesDraft cls type (framesPut cls fields type made)).1 (framesNames cls fields type made) := MethodDraft.created ..

end

variable {type : Ty} {made : Frames}

theorem createdRegular {made made' : Frames} {receiver : Option Ty} {params : List (String × Ty)} {m : MethodDraft}
    (created : MethodDraft.Created made receiver params m made') (receivers : ∀ t ∈ receiver, t.Regular knows)
    (all : ∀ p ∈ params, p.2.Regular knows) {l : Local} (has : made'.Has l) : made.Has l ∨ l.type.Regular knows := by
  rcases created.only l has with old | new
  · exact .inl old
  · right
    rcases List.mem_append.1 new with this | param
    · cases is : m.receiver with
      | none => simp [is] at this
      | some r =>
        have same := created.receiver
        simp only [is, Option.toList_some, List.mem_singleton] at this
        subst this
        cases receiver with
        | none => simp [is] at same
        | some t =>
          rw [is] at same
          simp only [Option.map_some, Option.some.injEq] at same
          rw [same]
          exact (receivers t rfl).withNull false
    · have member : (l.name, l.type) ∈ params := by
        rw [← created.locals]
        exact List.mem_map_of_mem param
      exact all _ member

theorem unitGrows : made.Grows (unit cls fields type made).2 := by
  rw [unitFrames]
  exact ((newCreated cls fields type made).grows.trans (getCreated cls fields type made).grows).trans
    ((putCreated cls fields type made).grows.trans (namesCreated cls fields type made).grows)

theorem unitRegular (regular : type.Regular knows) (all : ∀ f ∈ fields, f.2.Regular knows) {l : Local}
    (has : (unit cls fields type made).2.Has l) : made.Has l ∨ l.type.Regular knows := by
  have receivers : ∀ t ∈ some type, t.Regular knows := by
    intro t is
    cases is
    exact regular
  have atoms : ∀ p ∈ [("name", Ty.string), ("value", Ty.any)], p.2.Regular knows := by
    intro p inside
    simp only [List.mem_cons, List.not_mem_nil, or_false] at inside
    rcases inside with rfl | rfl <;> exact .atom
  rw [unitFrames] at has
  rcases createdRegular (namesCreated cls fields type made) receivers nofun has with has | here
  · rcases createdRegular (putCreated cls fields type made) receivers atoms has with has | here
    · rcases createdRegular (getCreated cls fields type made) receivers
        (fun p inside => atoms p (by rw [List.mem_singleton.1 inside]; exact List.mem_cons_self)) has with has | here
      · exact createdRegular (newCreated cls fields type made) nofun all has
      · exact .inr here
    · exact .inr here
  · exact .inr here

theorem unitMethods (cls : String) (fields : List (String × Ty)) (type : Ty) (made : Frames) : ∃ this name this' name' value,
    (getDraft cls type (framesNew cls fields type made)).1.receiver.toList ++
      (getDraft cls type (framesNew cls fields type made)).1.locals = [this, name] ∧
    (putDraft cls type (framesGet cls fields type made)).1.receiver.toList ++
      (putDraft cls type (framesGet cls fields type made)).1.locals = [this', name', value] ∧
    (unit cls fields type made).1.methods =
      [(newDraft cls fields type made).1.withBody (constructorBody cls fields (newDraft cls fields type made).1.locals),
        (getDraft cls type (framesNew cls fields type made)).1.withBody (getterBody cls fields this name),
        (putDraft cls type (framesGet cls fields type made)).1.withBody (setterBody cls fields this' name' value),
        (namesDraft cls type (framesPut cls fields type made)).1.withBody (namesBody fields)] :=
  ⟨_, _, _, _, _, rfl, rfl, rfl⟩

theorem zipSelf {α β : Type} {f : α → β} {xs : List α} {ys : List β} {x : β × α} (is : xs.map f = ys)
    (inside : x ∈ ys.zip xs) : x.1 = f x.2 := by
  subst is
  induction xs with
  | nil => simp at inside
  | cons y ys ih =>
    rw [List.map_cons, List.zip_cons_cons, List.mem_cons] at inside
    rcases inside with rfl | later
    · rfl
    · exact ih later

theorem unitReady (known : knows cls) (sized : ∀ f ∈ fields, f.2 ≠ .void) (reference : type.width = 1) :
    ∀ m ∈ (unit cls fields type made).1.methods, m.Ready E knows (unit cls fields type made).2 fun _ _ _ => True := by
  have afterPut := (namesCreated cls fields type made).grows
  have afterGet := (putCreated cls fields type made).grows.trans afterPut
  have afterNew := (getCreated cls fields type made).grows.trans afterGet
  have typed : ∀ x ∈ fields.zip (newDraft cls fields type made).1.locals, x.2.type = x.1.2 := by
    intro x inside
    exact (congrArg Prod.snd (zipSelf (newCreated cls fields type made).locals inside)).symm
  obtain ⟨this, name, this', name', value, getLocals, putLocals, methods⟩ := unitMethods cls fields type made
  rw [unitFrames, methods]
  simp only [List.mem_cons, List.not_mem_nil, or_false]
  have each {m : MethodDraft} {body : Seq} {n : Nat} {Γ : Frames → Slots → Prop} {K : Slots → Asm → List Handler → Prop}
      (is : m.body = some body) (returns : m.returns.width = n) (fills : body.Fills E knows Γ n K)
      (visible : ∀ fs, (framesNames cls fields type made).Grows fs → Γ fs (Slots.body fs m.frame)) :
      m.Ready E knows (framesNames cls fields type made) fun _ _ _ => True := by
    subst returns
    exact (MethodDraft.readyOf is fills visible).mono (fun _ h => h) (fun _ h => h) (.refl _) fun _ _ _ _ => trivial
  -- Each method stays a variable: with a draft in its place the goal would be evaluated as far as its rendering.
  rintro m (is | is | is | is)
  · refine each (congrArg (·.body) is) ((congrArg (·.returns.width) is).trans reference) (constructorFills known sized typed) ?_
    intro fs grows
    rw [is]
    exact placedLater (newCreated cls fields type made) (afterNew.trans grows)
  · refine each (congrArg (·.body) is) (congrArg (·.returns.width) is) (getterFills known sized) ?_
    intro fs grows
    rw [is, ← getLocals]
    exact placedLater (getCreated cls fields type made) (afterGet.trans grows)
  · refine each (congrArg (·.body) is) (congrArg (·.returns.width) is) (setterFills known sized) ?_
    intro fs grows
    rw [is, ← putLocals]
    exact placedLater (putCreated cls fields type made) (afterPut.trans grows)
  · exact each (congrArg (·.body) is) (congrArg (·.returns.width) is) namesFills fun _ _ => nofun

end Struct

end QueryMachine
