import QueryMachine.Build.Loop
import QueryMachine.Proofs.Build.Access
import QueryMachine.Proofs.Expr.Frame

/-! Loops that collect the values of a body: the code of a loop is a walk in which the top is met again. -/
namespace QueryMachine

open Emit (Out)
open Conversion
open Verify (after)

namespace Loop

def keep (type : Ty) (held out : Local) : Seq := do
  let skip ← Emit.newLabel
  let value ← Emit.slotOf held
  let target ← Emit.slotOf out
  if type.isNullable then Emit.ops [.load value, .ifNull skip]
  Emit.ops [.load target, .load value, .native .listAdd]
  Emit.mark skip

def listOf (a : IterateAccess) (source : Local) (site : Nat) : Expr :=
  match a with
  | .list _ => source.read
  | .dynamic => ⟨(Ty.list .any).nonNull, do
      source.read.generate
      Emit.op (.dynamic site .iterate)⟩

structure Collects (site : Nat) (made : Frames) (root : FrameId) (scope : List Local) (l : Loop) (a : IterateAccess) (mapped : Expr)
    (held out : Local) : Prop where
  access : IterateAccess.of? l.iterable.type = some a
  list : l.list = listOf a l.source site
  items : l.items = [.exec (held.write mapped), .exec (keep mapped.type held out)]
  source : made.Has l.source ∧ l.source.frame = l.frame ∧ l.source.type = l.iterable.type.nonNull
  view : made.Has l.view ∧ l.view.frame = l.frame ∧ l.view.type = l.list.type.nonNull
  index : made.Has l.index ∧ l.index.frame = l.frame ∧ l.index.type = .int32
  item : made.Has l.item ∧ l.item.frame = l.frame ∧ l.item.type = a.itemType
  kept : made.Has held ∧ held.frame = l.frame ∧ held.type = mapped.type.boxed
  result : made.Has out ∧ out.frame ≠ l.frame
  outside : root ≠ l.frame
  others : ∀ x ∈ scope, x.frame ≠ l.frame

structure Places where
  source : Nat
  view : Nat
  index : Nat
  item : Nat
  held : Nat
  out : Nat

structure Placed (p : Places) (l : Loop) (held out : Local) (σ : Slots) : Prop where
  source : σ.Holds l.source p.source
  view : σ.Holds l.view p.view
  index : σ.Holds l.index p.index
  item : σ.Holds l.item p.item
  held : σ.Holds held p.held
  out : σ.Holds out p.out

def keepCode (type : Ty) (p : Places) (skip : Label) : Asm :=
  (if type.isNullable then [.op (.load p.held), .op (.ifNull skip)] else []) ++
    [.op (.load p.out), .op (.load p.held), .op (.native .listAdd), .mark skip]

def entryCode (a : IterateAccess) (p : Places) (site : Nat) : Asm :=
  [.op (.store p.source), .op (.load p.source)] ++ (match a with
    | .list _ => []
    | .dynamic => [.op (.dynamic site .iterate)]) ++
    [.op (.store p.view), .op (.const (.int 0)), .op (.store p.index)]

def turnCode (item : Ty) (p : Places) (exit : Label) : Asm :=
  [.op (.load p.index), .op (.load p.view), .op (.native .length), .op (.ifCmp .ge exit), .op (.load p.view),
    .op (.load p.index), .op (.native .listGet)] ++ Asm.downcast item ++ [.op (.store p.item)]

def advanceCode (p : Places) (top : Label) : Asm :=
  [.op (.load p.index), .op (.const (.int 1)), .op (.arith .add .int), .op (.store p.index), .op (.jump top)]

def Turns (K K' : Slots → Asm → Prop) (a : IterateAccess) (iterable mapped : Ty) (held : Local) (p : Places)
    (site : Nat) (σ : Slots) (X : Asm) : Prop :=
  ∃ I M os top advance exit there skip, K σ I ∧ K' σ M ∧ castOps? mapped.boxed mapped = some os ∧
    X = I ++ Asm.nullTest iterable exit there ++ entryCode a p site ++ [.mark top] ++ turnCode a.itemType p exit ++
      M ++ Asm.straight os ++ [.op (held.storeAt p.held)] ++ keepCode mapped p skip ++ [.mark advance] ++
      advanceCode p top ++ [.mark exit]

variable {E : Error → Prop} {knows : String → Prop} {K K' : Slots → Asm → Prop} {root : FrameId} {scope : List Local}
  {made fs : Frames} {mode : Option Nat} {e₀ e : Emitter} {σ : Slots} {A : Asm} {Λ : List (Label × Nat)}
  {W : Label → Prop} {Q : Unit → Emitter → Prop} {l : Loop} {a : IterateAccess} {mapped : Expr} {held out : Local}
  {site : Nat}

theorem iterateTypes {t : Ty} (regular : t.Regular knows) (of : IterateAccess.of? t = some a) :
    t.isPrimitive = false ∧ a.itemType.Regular knows ∧ a.itemType.isPrimitive = false := by
  cases regular with
  | prim => contradiction
  | @atom n a =>
    cases a with
    | any =>
      cases of
      exact ⟨rfl, .atom, rfl⟩
    | _ => contradiction
  | list element reference =>
    cases of
    exact ⟨rfl, element.withNull true, Ty.withNullReference true reference⟩
  | map => contradiction
  | struct => contradiction

theorem outKeep {p : Places} {type : Ty} (placed : Placed p l held out σ)
    (walk : Walk knows mode e₀ e σ A Λ W (some 0))
    (next : ∀ e' skip, Walk knows mode e₀ e' σ (A ++ keepCode type p skip) Λ W (some 0) → Q () e') :
    Out (keep type held out) fs e E Q := by
  unfold keep
  unfold keepCode at next
  simp only [Emit.outBind]
  refine walk.outLabel 0 ?_
  intro skip e₁ fresh walk
  refine walk.outSlot placed.held ?_
  refine walk.outSlot placed.out ?_
  have tail : ∀ {e A}, Walk knows mode e₀ e σ A ((skip, 0) :: Λ) (fun x => x = skip ∨ W x) (some 0) →
      (∀ e', Walk knows mode e₀ e' σ (A ++ [.op (.load p.out), .op (.load p.held), .op (.native .listAdd), .mark skip]) Λ W
        (some 0) → Q () e') →
      Out (Emit.ops [.load p.out, .load p.held, .native .listAdd]) fs e E fun _ e' => Out (Emit.mark skip) fs e' E Q := by
    intro e A walk next
    simp only [Emit.opsCons, Emit.opsNil, Emit.outBind, Emit.outPure]
    refine walk.outLoadSlot placed.out ?_
    intro e₂ walk
    refine walk.outLoadSlot placed.held ?_
    intro e₃ walk
    refine walk.outPlain ⟨rfl, rfl, rfl, rfl⟩ (Nat.le_refl _) ?_
    intro e₄ walk
    refine walk.outMark (.inl rfl) List.mem_cons_self (.inr rfl) ?_
    intro e₅ walk
    exact next e₅ (by simpa using walk.closed fresh)
  cases nullable : type.isNullable with
  | false =>
    simp only [nullable, Bool.false_eq_true, if_false, Emit.outBind] at next ⊢
    refine tail walk ?_
    intro e₂ walk
    exact next e₂ skip (by simpa using walk)
  | true =>
    simp only [nullable, if_true, Emit.outBind, Emit.opsCons, Emit.opsNil, Emit.outPure] at next tail ⊢
    refine walk.outLoadSlot placed.held ?_
    intro e₂ walk
    refine walk.outIfNull List.mem_cons_self ?_
    intro e₃ walk
    refine tail walk ?_
    intro e₄ walk
    exact next e₄ skip (by simpa using walk)

theorem Collects.placed (collects : Collects site made root scope l a mapped held out) (grows : made.Grows fs) {o : Nat}
    (outHolds : σ.Holds out o) :
    ∃ p : Places, Placed p l held out (σ.enter l.frame ((fs.frame l.frame).locals.map (·.2))) ∧ p.out = o ∧
      σ.next ≤ p.source ∧ σ.next ≤ p.view ∧ σ.next ≤ p.index ∧ σ.next ≤ p.item ∧ σ.next ≤ p.held := by
  have own : ∀ {x : Local}, made.Has x → x.frame = l.frame →
      ∃ s, (σ.enter l.frame ((fs.frame l.frame).locals.map (·.2))).Holds x s ∧ σ.next ≤ s := by
    intro x has is
    rw [← is]
    exact enteredHolds (has.later grows)
  obtain ⟨source, s₁, low₁⟩ := own collects.source.1 collects.source.2.1
  obtain ⟨view, s₂, low₂⟩ := own collects.view.1 collects.view.2.1
  obtain ⟨index, s₃, low₃⟩ := own collects.index.1 collects.index.2.1
  obtain ⟨item, s₄, low₄⟩ := own collects.item.1 collects.item.2.1
  obtain ⟨kept, s₅, low₅⟩ := own collects.kept.1 collects.kept.2.1
  exact ⟨⟨source, view, index, item, kept, o⟩,
    ⟨s₁, s₂, s₃, s₄, s₅, Slots.enterOther collects.result.2 outHolds⟩, rfl, low₁, low₂, low₃, low₄, low₅⟩

theorem castHeld (t : Ty) : ∃ os, castOps? t.boxed t = some os := by
  cases t with
  | prim p => cases p <;> exact ⟨_, rfl⟩
  | _ => exact ⟨[], if_pos rfl⟩

theorem outRead {x : Local} {s k : Nat} (holds : σ.Holds x s) (narrow : x.type.width = 1)
    (walk : Walk knows mode e₀ e σ A Λ W (some k))
    (next : ∀ e', Walk knows mode e₀ e' σ (A ++ [.op (.load s)]) Λ W (some (k + 1)) → Q () e') :
    Out x.read.generate fs e E Q := by
  simp only [Local.read, Emit.outBind]
  refine walk.outSlot holds ?_
  simp only [Emit.load, narrow, show ¬ (1 = 2) by decide, if_false]
  exact walk.outLoadSlot holds next

theorem outList {s : Nat} (holds : σ.Holds l.source s) (narrow : l.source.type.width = 1)
    (walk : Walk knows mode e₀ e σ A Λ W (some 0))
    (next : ∀ e', Walk knows mode e₀ e' σ (A ++ [.op (.load s)] ++ (match a with
      | .list _ => []
      | .dynamic => [.op (.dynamic site .iterate)])) Λ W (some 1) → Q () e') :
    Out (listOf a l.source site).generate fs e E Q := by
  cases a with
  | list t =>
    refine outRead holds narrow walk ?_
    intro e₁ walk
    exact next e₁ (by simpa using walk)
  | dynamic =>
    simp only [listOf, Emit.outBind]
    refine outRead holds narrow walk ?_
    intro e₁ walk
    refine walk.outPlain ⟨rfl, rfl, rfl, rfl⟩ (Nat.le_refl _) ?_
    intro e₂ walk
    exact next e₂ walk

theorem closedThree {c : Option Nat} {top advance exit : Label} {i j k : Nat}
    (walk : Walk knows mode e₀ e σ A ((exit, k) :: (advance, j) :: (top, i) :: Λ)
      (fun x => (((x = exit ∨ x = advance ∨ x = top ∨ W x) ∧ x ≠ top) ∧ x ≠ advance) ∧ x ≠ exit) c)
    (freshTop : ¬ W top) (freshAdvance : ¬ (advance = top ∨ W advance))
    (freshExit : ¬ (exit = advance ∨ exit = top ∨ W exit)) : Walk knows mode e₀ e σ A Λ W c := by
  refine walk.forget ?_ ?_
  · exact List.subset_cons_of_subset _ (List.subset_cons_of_subset _ (List.subset_cons_self _ _))
  · intro x
    constructor
    · intro h
      exact ((h.1.1.1.resolve_left h.2).resolve_left h.1.2).resolve_left h.1.1.2
    · intro waits
      exact ⟨⟨⟨.inr (.inr (.inr waits)), fun h => freshTop (h ▸ waits)⟩, fun h => freshAdvance (.inr (h ▸ waits))⟩,
        fun h => freshExit (.inr (.inr (h ▸ waits)))⟩

theorem outTurns (collects : Collects site made root scope l a mapped held out)
    (iterable : l.iterable.Writes E knows (Visible root scope made) K)
    (body : mapped.Writes E knows (Visible root (l.item :: scope) made) K') (visible : Visible root scope made fs σ)
    {o : Nat} (outHolds : σ.Holds out o) (walk : Walk knows mode e₀ e σ A Λ W (some 0))
    (next : ∀ e' B ts p, p.out = o → Placed p l held out (σ.enter l.frame ts) → σ.next ≤ p.source → σ.next ≤ p.view →
      σ.next ≤ p.index → σ.next ≤ p.item → σ.next ≤ p.held →
      Turns K K' a l.iterable.type mapped.type held p site (σ.enter l.frame ts) B →
      Walk knows mode e₀ e' σ (A ++ B) Λ W (some 0) → Q () e') :
    Out l.build fs e E Q := by
  obtain ⟨reference, itemRegular, itemReference⟩ := iterateTypes iterable.regular collects.access
  obtain ⟨p, placed, same, low₁, low₂, low₃, low₄, low₅⟩ := collects.placed visible.grows outHolds
  have inner := visible.enter ((fs.frame l.frame).locals.map (·.2)) collects.outside collects.others
  have innerBody := inner.add ⟨p.item, placed.item⟩
  unfold build
  simp only [Emit.outBind, Emit.opsCons, Emit.opsNil, Emit.outPure]
  refine walk.outEnter ?_
  intro e₁ walk
  refine walk.outLabel 0 ?_
  intro top e₂ freshTop walk
  refine walk.outLabel 0 ?_
  intro advance e₃ freshAdvance walk
  refine walk.outLabel 0 ?_
  intro exit e₄ freshExit walk
  refine walk.outPart iterable.emits inner ?_
  intro e₅ I iterableShape walk
  refine walk.outNullTest (by simp) ?_
  intro e₆ there walk
  rw [iterable.regular.width reference] at walk
  refine walk.outSlot placed.source ?_
  refine walk.outStoreSlot placed.source ?_
  intro e₇ walk
  rw [collects.list]
  refine outList placed.source ?_ walk ?_
  · rw [collects.source.2.2]
    exact (Ty.withNullWidth _ false).trans (iterable.regular.width reference)
  intro e₈ walk
  refine walk.outSlot placed.view ?_
  refine walk.outSlot placed.index ?_
  refine walk.outSlot placed.item ?_
  refine Walk.outStoreSlot (k := 0) walk placed.view ?_
  intro e₉ walk
  refine walk.outPlain ⟨rfl, rfl, rfl, rfl⟩ (Nat.zero_le _) ?_
  intro e₁₀ walk
  refine Walk.outStoreSlot (k := 0) walk placed.index ?_
  intro e₁₁ walk
  refine walk.outMark (.inr (.inr (.inl rfl))) (j := 0) (by simp) (.inr rfl) ?_
  intro e₁₂ walk
  refine walk.outLoadSlot placed.index ?_
  intro e₁₃ walk
  refine walk.outLoadSlot placed.view ?_
  intro e₁₄ walk
  refine walk.outPlain ⟨rfl, rfl, rfl, rfl⟩ (Nat.le_add_left 1 1) ?_
  intro e₁₅ walk
  refine Walk.outBranch (k := 2) (l := exit) walk rfl rfl rfl (by simp) (Nat.le_refl _) (by simp [after, Op.effect]) ?_
  intro e₁₆ walk
  refine Walk.outLoadSlot (k := 0) walk placed.view ?_
  intro e₁₇ walk
  refine walk.outLoadSlot placed.index ?_
  intro e₁₈ walk
  refine walk.outPlain ⟨rfl, rfl, rfl, rfl⟩ (Nat.le_refl _) ?_
  intro e₁₉ walk
  refine Walk.outDowncast (k := 0) walk ?_
  intro e₂₀ walk
  refine Walk.outStoreSlot (k := 0) walk placed.item ?_
  intro e₂₁ walk
  rw [collects.items]
  simp only [Emit.forMCons, Emit.forMNil, generateItem, Emit.outBind, Emit.outPure, Local.write]
  refine walk.outAs body innerBody ?_ ?_
  · intro fails
    obtain ⟨os, is⟩ := castHeld mapped.type
    rw [← collects.kept.2.2] at is
    rw [is] at fails
    contradiction
  rintro e₂₂ B ⟨M, os, bodyShape, is, converted⟩ walk
  rw [converted] at walk
  rw [collects.kept.2.2] at is
  refine walk.outSlot placed.held ?_
  have sized : held.type ≠ .void := by
    rw [collects.kept.2.2]
    exact body.regular.boxed.sized
  refine walk.outStore placed.held (Nat.ne_of_gt (Ty.widthPos sized)) ?_
  intro e₂₃ walk
  refine outKeep placed walk ?_
  intro e₂₄ skip walk
  refine walk.outMark (j := 0) ⟨.inr (.inl rfl), fun h => freshAdvance (.inl h)⟩ (by simp) (.inr rfl) ?_
  intro e₂₅ walk
  refine walk.outLoadSlot placed.index ?_
  intro e₂₆ walk
  refine walk.outPlain ⟨rfl, rfl, rfl, rfl⟩ (Nat.zero_le _) ?_
  intro e₂₇ walk
  refine walk.outPlain ⟨rfl, rfl, rfl, rfl⟩ (Nat.le_refl _) ?_
  intro e₂₈ walk
  refine Walk.outStoreSlot (k := 0) walk placed.index ?_
  intro e₂₉ walk
  refine walk.outJump (by simp) ?_
  intro e₃₀ walk
  refine walk.outMark (j := 0) ⟨⟨.inl rfl, fun h => freshExit (.inr (.inl h))⟩, fun h => freshExit (.inl h)⟩ (by simp)
    (.inl rfl) ?_
  intro e₃₁ walk
  refine walk.outExit rfl (layoutGrows _ _) ?_
  intro e₃₂ walk
  refine next e₃₂ _ _ p same placed low₁ low₂ low₃ low₄ low₅ ⟨I, M, os, top, advance, exit, there, skip, iterableShape,
    bodyShape, is, rfl⟩ ?_
  have settled := closedThree walk freshTop freshAdvance freshExit
  rw [collects.item.2.2] at settled
  simpa [entryCode, turnCode, advanceCode] using settled

def Transformed (K K' : Slots → Asm → Prop) (a : IterateAccess) (l : Loop) (mapped : Ty) (held out : Local) (site : Nat)
    (σ : Slots) (X : Asm) : Prop :=
  ∃ ts ts' o p B done, (σ.enter out.frame ts).Holds out o ∧ σ.next ≤ o ∧ p.out = o ∧
    Placed p l held out ((σ.enter out.frame ts).enter l.frame ts') ∧ (σ.enter out.frame ts).next ≤ p.source ∧
    (σ.enter out.frame ts).next ≤ p.view ∧ (σ.enter out.frame ts).next ≤ p.index ∧
    (σ.enter out.frame ts).next ≤ p.item ∧ (σ.enter out.frame ts).next ≤ p.held ∧
    Turns K K' a l.iterable.type mapped held p site ((σ.enter out.frame ts).enter l.frame ts') B ∧
    X = [.op (.native .newList), .op (.store o)] ++ B ++ [.op (.load o), .mark done]

theorem castSelf (t : Ty) : Emit.cast t t = pure () := if_pos rfl

theorem transformedWrites (collects : Collects site made root scope l a mapped held out)
    (iterable : l.iterable.Writes E knows (Visible root scope made) K)
    (body : mapped.Writes E knows (Visible root (l.item :: scope) made) K')
    (type : out.type = (Ty.list mapped.type.nonNull).nonNull) (other : root ≠ out.frame)
    (others : ∀ x ∈ scope, x.frame ≠ out.frame) :
    (Expr.mk out.type (do
      let done ← Emit.newLabel
      Emit.enterFrame out.frame
      [Scope.Item.exec (out.write ⟨out.type, Emit.op (.native .newList)⟩), .exec l.build].forM
        (Scope.generateItem out.type done)
      out.read.generateAs out.type
      Emit.mark done
      Emit.exitFrame out.frame)).Writes E knows (Visible root scope made)
        (Transformed K K' a l mapped.type held out site) := by
  have regular : out.type.Regular knows := by
    rw [type]
    exact (body.regular.withNull false).listOf.withNull false
  have narrow : out.type.width = 1 := by
    rw [type]
    rfl
  refine ⟨regular, emitsOf ?_⟩
  intro fs e visible walk
  simp only [Emit.outBind, Emit.forMCons, Emit.forMNil, Scope.generateItem, Emit.outPure, Local.write, Expr.generateAs,
    castSelf, narrow]
  refine walk.outLabel 1 ?_
  intro done e₁ fresh walk
  refine walk.outEnter ?_
  intro e₂ walk
  obtain ⟨o, holds, low⟩ := enteredHolds (σ := e.slots) (collects.result.1.later visible.grows)
  refine walk.outPlain ⟨rfl, rfl, rfl, rfl⟩ (Nat.zero_le _) ?_
  intro e₃ walk
  refine walk.outSlot holds ?_
  refine Walk.outStoreSlot (k := 0) walk holds ?_
  intro e₄ walk
  refine outTurns collects iterable body (visible.enter _ other others) holds walk ?_
  intro e₅ B ts' p same placed low₁ low₂ low₃ low₄ low₅ turns walk
  refine outRead holds narrow walk ?_
  intro e₆ walk
  rw [show Emit.cast out.type out.read.type = pure () from castSelf _, Emit.outPure]
  refine walk.outMark (.inl rfl) (j := 1) List.mem_cons_self (.inr rfl) ?_
  intro e₇ walk
  refine walk.outExit rfl (layoutGrows _ _) ?_
  intro e₈ walk
  refine walk.finished ⟨_, ts', o, p, B, done, holds, low, same, placed, low₁, low₂, low₃, low₄, low₅, turns, rfl⟩
    (by simp) rfl ?_
  intro x waits
  exact (waits.1.elim waits.2 id)

end Loop

end QueryMachine
