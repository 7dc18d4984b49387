import QueryMachine.Proofs.Code.Walk

/-! Rules that carry a walk over what emits: single operations, labels, slots, and emission that is a walk of its
own. -/
namespace QueryMachine

open Verify (after)
open Emit (Out)

structure Op.Plain (o : Op) : Prop where
  targets : o.targets = []
  slots : Verify.slots? o = none
  member : o.memberClass? = none
  falls : o.fallsThrough = true

def Straight : List Op → Nat → Nat → Prop
  | [], d, d' => d = d'
  | o :: os, d, d' => o.Plain ∧ o.effect.1 ≤ d ∧ Straight os (after o d) d'

theorem straightAppend {os os' : List Op} {d d' d'' : Nat} (first : Straight os d d')
    (second : Straight os' d' d'') : Straight (os ++ os') d d'' := by
  induction os generalizing d with
  | nil =>
    cases first
    exact second
  | cons o os ih =>
    obtain ⟨plain, enough, rest⟩ := first
    exact ⟨plain, enough, ih rest⟩

theorem straightAbove {os : List Op} {d d' : Nat} (b : Nat) (straight : Straight os d d') :
    Straight os (b + d) (b + d') := by
  induction os generalizing d with
  | nil => exact congrArg (b + ·) straight
  | cons o os ih =>
    obtain ⟨plain, enough, rest⟩ := straight
    refine ⟨plain, Nat.le_trans enough (Nat.le_add_left d b), ?_⟩
    rw [Walk.afterAdd enough]
    exact ih rest

theorem repWidthLe (r : Rep) : r.width ≤ 2 := by
  cases r with
  | void => exact Nat.zero_le 2
  | prim p => cases p <;> decide
  | ref cls => exact Nat.le_succ 1

theorem Ty.widthLe (t : Ty) : t.width ≤ 2 := repWidthLe t.rep

theorem layoutGrows (next : Nat) (ts : List Ty) : next ≤ (Emit.layout next ts).2 := by
  induction ts generalizing next with
  | nil => exact Nat.le_refl next
  | cons t ts ih => exact Nat.le_trans (Nat.le_add_right next _) (ih _)

theorem layoutGet {ts : List Ty} {i : Nat} {t : Ty} (is : ts[i]? = some t) (next : Nat) :
    ∃ s, (Emit.layout next ts).1[i]? = some s ∧ next ≤ s ∧ s + max t.width 1 ≤ (Emit.layout next ts).2 := by
  induction ts generalizing next i with
  | nil => simp at is
  | cons t' ts ih =>
    cases i with
    | zero =>
      cases is
      exact ⟨next, rfl, Nat.le_refl next, layoutGrows _ ts⟩
    | succ i =>
      obtain ⟨s, here, low, high⟩ := ih is (next + max t'.width 1)
      exact ⟨s, here, by omega, high⟩

namespace Slots

def enter (σ : Slots) (f : FrameId) (ts : List Ty) : Slots :=
  ⟨⟨f, σ.next, (Emit.layout σ.next ts).1⟩ :: σ.active, (Emit.layout σ.next ts).2⟩

def temp (σ : Slots) (width : Nat) : Slots := ⟨σ.active, σ.next + max width 1⟩

theorem enterOwn {σ : Slots} {l : Local} {ts : List Ty} (is : ts[l.index]? = some l.type) :
    ∃ s, (σ.enter l.frame ts).Holds l s ∧ σ.next ≤ s := by
  obtain ⟨s, here, low, high⟩ := layoutGet is σ.next
  refine ⟨s, ⟨?_, high⟩, low⟩
  simp [find?, enter, here]

theorem enterOther {σ : Slots} {l : Local} {s : Nat} {f : FrameId} {ts : List Ty} (other : l.frame ≠ f)
    (holds : σ.Holds l s) : (σ.enter f ts).Holds l s := by
  refine ⟨?_, Nat.le_trans holds.2 (layoutGrows σ.next ts)⟩
  have found := holds.1
  simp only [find?, enter, List.findSome?_cons] at found ⊢
  rw [if_neg (Ne.symm other)]
  exact found

theorem tempHolds {σ : Slots} {l : Local} {s width : Nat} (holds : σ.Holds l s) : (σ.temp width).Holds l s :=
  ⟨holds.1, Nat.le_trans holds.2 (Nat.le_add_right σ.next _)⟩

end Slots

def Local.loadAt (l : Local) (s : Nat) : Op := if l.type.width = 2 then .load2 s else .load s

def Local.storeAt (l : Local) (s : Nat) : Op := if l.type.width = 2 then .store2 s else .store s

def Emits (E : Error → Prop) (knows : String → Prop) (Γ : Frames → Slots → Prop) (width : Nat)
    (K : Slots → Asm → Prop) (x : Emit Unit) : Prop :=
  ∀ fs e, Γ fs e.slots → e.nextSlot ≤ e.maxLocals → Out x fs e E fun _ e' =>
    ∃ X, K e.slots X ∧ Walk knows none e e' e.slots X [] (fun _ => False) (some width)

theorem Walk.known {knows knows' : String → Prop} {mode : Option Nat} {e₀ e : Emitter} {σ : Slots} {A : Asm}
    {Λ : List (Label × Nat)} {W : Label → Prop} {c : Option Nat} (walk : Walk knows mode e₀ e σ A Λ W c)
    (more : ∀ cls, knows cls → knows' cls) : Walk knows' mode e₀ e σ A Λ W c :=
  { walk with
    typed := by
      intro d top G₀
      obtain ⟨G, old, own, flows⟩ := walk.typed d top G₀
      refine ⟨G, old, own, ?_⟩
      intro G' same b locals returns known
      exact flows G' same b locals returns fun cls is => known cls (more cls is) }

theorem Emits.later {E : Error → Prop} {knows knows' : String → Prop} {Γ Γ' : Frames → Slots → Prop} {width : Nat}
    {K : Slots → Asm → Prop} {x : Emit Unit} (emits : Emits E knows Γ width K x)
    (more : ∀ cls, knows cls → knows' cls) (fewer : ∀ fs σ, Γ' fs σ → Γ fs σ) : Emits E knows' Γ' width K x := by
  intro fs e visible room
  refine (emits fs e (fewer fs _ visible) room).mono ?_ fun _ h => h
  intro _ e' ⟨X, shape, walk⟩
  exact ⟨X, shape, walk.known more⟩

theorem Emits.mono {E : Error → Prop} {knows : String → Prop} {Γ : Frames → Slots → Prop} {width : Nat}
    {K K' : Slots → Asm → Prop} {x : Emit Unit} (emits : Emits E knows Γ width K x)
    (weaker : ∀ σ X, K σ X → K' σ X) : Emits E knows Γ width K' x := by
  intro fs e visible room
  refine (emits fs e visible room).mono ?_ fun _ h => h
  intro _ e' ⟨X, shape, walk⟩
  exact ⟨X, weaker _ X shape, walk⟩

namespace Walk

variable {knows : String → Prop} {mode : Option Nat} {fs : Frames} {e₀ e : Emitter} {σ : Slots} {A : Asm}
  {Λ : List (Label × Nat)} {W : Label → Prop} {c : Option Nat} {k : Nat} {E : Error → Prop} {Q : Unit → Emitter → Prop}

theorem outOp {o : Op} (walk : Walk knows mode e₀ e σ A Λ W (some k)) (fits : Fits knows mode e.maxLocals Λ k o)
    (next : ∀ e', Walk knows mode e₀ e' σ (A ++ [.op o]) Λ W (fallDepth o k) → Q () e') :
    Out (Emit.op o) fs e E Q := next _ (walk.op fits)

theorem fitsPlain {o : Op} {locals : Nat} (plain : o.Plain) (enough : o.effect.1 ≤ k) :
    Fits knows mode locals Λ k o where
  enough := enough
  targets l h := by simp [plain.targets] at h
  slots first last h := by simp [plain.slots] at h
  returns n h := by
    have falls := plain.falls
    rw [h] at falls
    contradiction
  member cls h := by simp [plain.member] at h

theorem outPlain {o : Op} (walk : Walk knows mode e₀ e σ A Λ W (some k)) (plain : o.Plain) (enough : o.effect.1 ≤ k)
    (next : ∀ e', Walk knows mode e₀ e' σ (A ++ [.op o]) Λ W (some (after o k)) → Q () e') :
    Out (Emit.op o) fs e E Q := by
  refine walk.outOp (fitsPlain plain enough) ?_
  intro e' walk
  rw [fallDepth, if_pos plain.falls] at walk
  exact next e' walk

theorem outStraight {os : List Op} {k' : Nat} (walk : Walk knows mode e₀ e σ A Λ W (some k))
    (straight : Straight os k k')
    (next : ∀ e', Walk knows mode e₀ e' σ (A ++ os.map .op) Λ W (some k') → Q () e') :
    Out (Emit.ops os) fs e E Q := by
  induction os generalizing e A k with
  | nil =>
    cases straight
    rw [Emit.opsNil]
    exact next e (by simpa using walk)
  | cons o os ih =>
    obtain ⟨plain, enough, rest⟩ := straight
    rw [Emit.opsCons, Emit.outBind]
    refine walk.outPlain plain enough ?_
    intro e' walk
    refine ih walk rest ?_
    intro e'' walk
    exact next e'' (by simpa using walk)

theorem outBranch {o : Op} {l : Label} (walk : Walk knows mode e₀ e σ A Λ W (some k)) (targets : o.targets = [l])
    (slots : Verify.slots? o = none) (member : o.memberClass? = none) (stays : ∀ n, o ≠ .ret n)
    (enough : o.effect.1 ≤ k) (made : (l, after o k) ∈ Λ)
    (next : ∀ e', Walk knows mode e₀ e' σ (A ++ [.op o]) Λ W (fallDepth o k) → Q () e') :
    Out (Emit.op o) fs e E Q := by
  refine walk.outOp ⟨enough, ?_, ?_, ?_, ?_⟩ next
  · intro l' target
    rw [targets, List.mem_singleton] at target
    rw [target]
    exact made
  · intro first last is
    rw [slots] at is
    contradiction
  · intro n is
    exact absurd is (stays n)
  · intro cls is
    rw [member] at is
    contradiction

theorem outJump {l : Label} (walk : Walk knows mode e₀ e σ A Λ W (some k)) (made : (l, k) ∈ Λ)
    (next : ∀ e', Walk knows mode e₀ e' σ (A ++ [.op (.jump l)]) Λ W none → Q () e') :
    Out (Emit.jump l) fs e E Q :=
  walk.outBranch rfl rfl rfl nofun (Nat.zero_le k) made next

theorem outIfZero {c : Cond} {l : Label} (walk : Walk knows mode e₀ e σ A Λ W (some (k + 1))) (made : (l, k) ∈ Λ)
    (next : ∀ e', Walk knows mode e₀ e' σ (A ++ [.op (.ifZero c l)]) Λ W (some k) → Q () e') :
    Out (Emit.op (.ifZero c l)) fs e E Q :=
  walk.outBranch rfl rfl rfl nofun (Nat.le_add_left 1 k) made next

theorem outIfNull {l : Label} (walk : Walk knows mode e₀ e σ A Λ W (some (k + 1))) (made : (l, k) ∈ Λ)
    (next : ∀ e', Walk knows mode e₀ e' σ (A ++ [.op (.ifNull l)]) Λ W (some k) → Q () e') :
    Out (Emit.op (.ifNull l)) fs e E Q :=
  walk.outBranch rfl rfl rfl nofun (Nat.le_add_left 1 k) made next

theorem outIfNonNull {l : Label} (walk : Walk knows mode e₀ e σ A Λ W (some (k + 1))) (made : (l, k) ∈ Λ)
    (next : ∀ e', Walk knows mode e₀ e' σ (A ++ [.op (.ifNonNull l)]) Λ W (some k) → Q () e') :
    Out (Emit.op (.ifNonNull l)) fs e E Q :=
  walk.outBranch rfl rfl rfl nofun (Nat.le_add_left 1 k) made next

theorem outLookup {table : List (Int32 × Label)} {l : Label} (walk : Walk knows mode e₀ e σ A Λ W (some (k + 1)))
    (made : ∀ x ∈ table, (x.2, k) ∈ Λ) (default : (l, k) ∈ Λ)
    (next : ∀ e', Walk knows mode e₀ e' σ (A ++ [.op (.lookup table l)]) Λ W none → Q () e') :
    Out (Emit.op (.lookup table l)) fs e E Q := by
  refine walk.outOp ⟨Nat.le_add_left 1 k, ?_, nofun, nofun, nofun⟩ next
  intro l' target
  rcases List.mem_append.1 target with key | other
  · obtain ⟨x, inside, rfl⟩ := List.mem_map.1 key
    exact made x inside
  · exact List.mem_singleton.1 other ▸ default

theorem outMember {o : Op} {cls : String} (walk : Walk knows mode e₀ e σ A Λ W (some k)) (targets : o.targets = [])
    (slots : Verify.slots? o = none) (member : o.memberClass? = some cls) (falls : o.fallsThrough = true)
    (known : knows cls) (enough : o.effect.1 ≤ k)
    (next : ∀ e', Walk knows mode e₀ e' σ (A ++ [.op o]) Λ W (some (after o k)) → Q () e') :
    Out (Emit.op o) fs e E Q := by
  refine walk.outOp ⟨enough, by simp [targets], by simp [slots], ?_, ?_⟩ ?_
  · intro n is
    rw [is] at falls
    contradiction
  · intro cls' is
    rw [member] at is
    cases is
    exact known
  · intro e' walk
    rw [fallDepth, if_pos falls] at walk
    exact next e' walk

theorem fresh (walk : Walk knows mode e₀ e σ A Λ W c) : ¬ W e.labels.size := by
  intro waits
  have high := (Array.getElem?_eq_some_iff.1 (walk.unbound _ waits).2).1
  exact Nat.lt_irrefl _ high

theorem outLabel {Q : Label → Emitter → Prop} (j : Nat) (walk : Walk knows mode e₀ e σ A Λ W c)
    (next : ∀ l e', ¬ W l → Walk knows mode e₀ e' σ A ((l, j) :: Λ) (fun x => x = l ∨ W x) c → Q l e') :
    Out Emit.newLabel fs e E Q := next _ _ walk.fresh (walk.label j)

theorem outMark {l : Label} {j : Nat} (walk : Walk knows mode e₀ e σ A Λ W c) (waits : W l) (made : (l, j) ∈ Λ)
    (meets : c = none ∨ c = some j)
    (next : ∀ e', Walk knows mode e₀ e' σ (A ++ [.mark l]) Λ (fun x => W x ∧ x ≠ l) (some j) → Q () e') :
    Out (Emit.mark l) fs e E Q := next _ (walk.mark waits made meets)

theorem forget {Λ' : List (Label × Nat)} {W' : Label → Prop} (walk : Walk knows mode e₀ e σ A Λ W c)
    (fewer : Λ' ⊆ Λ) (same : ∀ l, W l ↔ W' l) : Walk knows mode e₀ e σ A Λ' W' c where
  ops := walk.ops
  grows := walk.grows
  old := walk.old
  unbound l h := walk.unbound l ((same l).2 h)
  bound l low high := (walk.bound l low high).imp (same l).1 id
  placed := walk.placed
  inner := walk.inner
  own l k h := walk.own l k (fewer h)
  typed d top G₀ := by
    obtain ⟨G, old, own, flows⟩ := walk.typed d top G₀
    exact ⟨G, old, fun l k h => own l k (fewer h), flows⟩
  slots := walk.slots
  room := walk.room
  locals := walk.locals
  handlers := walk.handlers

theorem outLabels {Q : List Label → Emitter → Prop} (j n : Nat) (walk : Walk knows mode e₀ e σ A Λ W c)
    (next : ∀ made e', made.length = n → made.Nodup → (∀ l ∈ made, ¬ W l) →
      Walk knows mode e₀ e' σ A (made.map (·, j) ++ Λ) (fun x => x ∈ made ∨ W x) c → Q made e') :
    Out (Emit.newLabels n) fs e E Q := by
  refine Emit.outLabels (P := fun made e => Emit.Fresh W made ∧
    Walk knows mode e₀ e σ A (made.map (·, j) ++ Λ) (fun x => x ∈ made ∨ W x) c) n ?_ ?_ ?_
  · exact ⟨Emit.freshNone W, walk.forget (List.Subset.refl _) fun l => by simp⟩
  · intro made e ⟨fresh, walk⟩
    refine walk.outLabel j ?_
    intro l e' new walk
    refine ⟨fresh.add new, walk.forget ?_ fun x => Emit.waitsNew⟩
    intro x inside
    rw [List.map_append, List.append_assoc] at inside
    exact List.perm_middle.subset inside
  · exact fun made e' length ⟨fresh, walk⟩ => next made e' length fresh.distinct fresh.apart walk

theorem outPart {Γ : Frames → Slots → Prop} {width : Nat} {K : Slots → Asm → Prop} {x : Emit Unit}
    (walk : Walk knows mode e₀ e σ A Λ W (some k)) (emits : Emits E knows Γ width K x) (visible : Γ fs σ)
    (next : ∀ e' X, K σ X → Walk knows mode e₀ e' σ (A ++ X) Λ W (some (k + width)) → Q () e') :
    Out x fs e E Q := by
  have same := walk.slots
  have room : e.nextSlot ≤ e.maxLocals := by
    have := walk.room
    rw [← same] at this
    exact this
  refine (emits fs e (by rw [same]; exact visible) room).mono ?_ fun _ h => h
  intro _ e' ⟨X, shape, part⟩
  rw [same] at shape part
  exact next e' X shape (walk.append part)

/-! ### Locals -/

theorem outSlot {Q : Nat → Emitter → Prop} {l : Local} {s : Nat} (walk : Walk knows mode e₀ e σ A Λ W c)
    (holds : σ.Holds l s) (next : Q s e) : Out (Emit.slotOf l) fs e E Q := by
  have found : e.active.findSome? (fun a => if a.frame = l.frame then a.slots[l.index]? else none) = some s := by
    have := holds.1
    rw [← walk.slots] at this
    exact this
  unfold Emit.slotOf
  rw [Emit.outBind, Emit.outGet, found]
  exact next

theorem slotInside {l : Local} {s : Nat} (walk : Walk knows mode e₀ e σ A Λ W c) (holds : σ.Holds l s) :
    s + max l.type.width 1 ≤ e.maxLocals := Nat.le_trans holds.2 walk.room

theorem fitsSlot {o : Op} {first last : Nat} {locals : Nat} (slots : Verify.slots? o = some (first, last))
    (targets : o.targets = []) (member : o.memberClass? = none) (stays : ∀ n, o ≠ .ret n) (enough : o.effect.1 ≤ k)
    (inside : last < locals) : Fits knows mode locals Λ k o where
  enough := enough
  targets l h := by simp [targets] at h
  slots a b h := by
    rw [slots] at h
    cases h
    exact inside
  returns n h := absurd h (stays n)
  member cls h := by simp [member] at h

theorem outLoadSlot {l : Local} {s : Nat} (walk : Walk knows mode e₀ e σ A Λ W (some k)) (holds : σ.Holds l s)
    (next : ∀ e', Walk knows mode e₀ e' σ (A ++ [.op (.load s)]) Λ W (some (k + 1)) → Q () e') :
    Out (Emit.op (.load s)) fs e E Q := by
  have inside := walk.slotInside holds
  exact walk.outOp (fitsSlot rfl rfl rfl nofun (Nat.zero_le k) (by omega)) next

theorem outStoreSlot {l : Local} {s : Nat} (walk : Walk knows mode e₀ e σ A Λ W (some (k + 1))) (holds : σ.Holds l s)
    (next : ∀ e', Walk knows mode e₀ e' σ (A ++ [.op (.store s)]) Λ W (some k) → Q () e') :
    Out (Emit.op (.store s)) fs e E Q := by
  have inside := walk.slotInside holds
  exact walk.outOp (fitsSlot rfl rfl rfl nofun (Nat.le_add_left 1 k) (by omega)) next

theorem outLoad {l : Local} {s : Nat} (walk : Walk knows mode e₀ e σ A Λ W (some k)) (holds : σ.Holds l s)
    (sized : l.type.width ≠ 0)
    (next : ∀ e', Walk knows mode e₀ e' σ (A ++ [.op (l.loadAt s)]) Λ W (some (k + l.type.width)) → Q () e') :
    Out (Emit.load s l.type.width) fs e E Q := by
  have inside := walk.slotInside holds
  have small := l.type.widthLe
  unfold Emit.load Local.loadAt at *
  by_cases two : l.type.width = 2
  · rw [if_pos two, two] at next
    rw [if_pos two]
    exact walk.outOp (fitsSlot rfl rfl rfl nofun (Nat.zero_le k) (by omega)) next
  · rw [if_neg two, show l.type.width = 1 by omega] at next
    rw [if_neg two]
    exact walk.outOp (fitsSlot rfl rfl rfl nofun (Nat.zero_le k) (by omega)) next

theorem outStore {l : Local} {s : Nat} (walk : Walk knows mode e₀ e σ A Λ W (some (k + l.type.width)))
    (holds : σ.Holds l s) (sized : l.type.width ≠ 0)
    (next : ∀ e', Walk knows mode e₀ e' σ (A ++ [.op (l.storeAt s)]) Λ W (some k) → Q () e') :
    Out (Emit.store s l.type.width) fs e E Q := by
  have inside := walk.slotInside holds
  have small := l.type.widthLe
  unfold Emit.store Local.storeAt at *
  by_cases two : l.type.width = 2
  · rw [two] at walk
    rw [if_pos two] at next ⊢
    exact walk.outOp (fitsSlot rfl rfl rfl nofun (Nat.le_add_left 2 k) (by omega)) next
  · rw [show l.type.width = 1 by omega] at walk
    rw [if_neg two] at next ⊢
    exact walk.outOp (fitsSlot rfl rfl rfl nofun (Nat.le_add_left 1 k) (by omega)) next

theorem moved {e' : Emitter} {σ' : Slots} (walk : Walk knows mode e₀ e σ A Λ W c) (ops : e'.ops = e.ops)
    (labels : e'.labels = e.labels) (handlers : e'.handlers = e.handlers) (slots : e'.slots = σ')
    (room : σ'.next ≤ e'.maxLocals) (locals : e.maxLocals ≤ e'.maxLocals) :
    Walk knows mode e₀ e' σ' A Λ W c where
  ops := by rw [ops, walk.ops]
  grows := by rw [labels]; exact walk.grows
  old l low := by rw [labels]; exact walk.old l low
  unbound l h := by rw [labels]; exact walk.unbound l h
  bound l low high := walk.bound l low (by rw [← labels]; exact high)
  placed l p h := by rw [labels]; exact walk.placed l p h
  inner o member l target := by rw [labels]; exact walk.inner o member l target
  own l k h := by rw [labels]; exact walk.own l k h
  typed d top G₀ := by
    obtain ⟨G, old, own, flows⟩ := walk.typed d top G₀
    refine ⟨G, old, own, ?_⟩
    intro G' same b more
    rw [labels] at same
    exact flows G' same b (Nat.le_trans locals more)
  slots := slots
  room := room
  locals := Nat.le_trans walk.locals locals
  handlers := handlers.trans walk.handlers

theorem outEnter {f : FrameId} (walk : Walk knows mode e₀ e σ A Λ W c)
    (next : ∀ e', Walk knows mode e₀ e' (σ.enter f ((fs.frame f).locals.map (·.2))) A Λ W c → Q () e') :
    Out (Emit.enterFrame f) fs e E Q := by
  have same := walk.slots
  refine next _ (walk.moved rfl rfl rfl ?_ ?_ (Nat.le_max_left _ _))
  · rw [← same]
    rfl
  · rw [← same]
    exact Nat.le_max_right _ _

theorem outExit {f : FrameId} {τ : Slots} {slots : List Nat} (walk : Walk knows mode e₀ e τ A Λ W c)
    (active : τ.active = ⟨f, σ.next, slots⟩ :: σ.active) (later : σ.next ≤ τ.next)
    (next : ∀ e', Walk knows mode e₀ e' σ A Λ W c → Q () e') : Out (Emit.exitFrame f) fs e E Q := by
  have here : e.active = ⟨f, σ.next, slots⟩ :: σ.active := by
    rw [← active, ← walk.slots]
    rfl
  unfold Emit.exitFrame
  rw [Emit.outBind, Emit.outGet, here]
  simp only [if_true, Emit.outSet]
  exact next _ (walk.moved rfl rfl rfl rfl (Nat.le_trans later walk.room) (Nat.le_refl _))

theorem outTemp {Q : Nat → Emitter → Prop} {width : Nat} (walk : Walk knows mode e₀ e σ A Λ W c)
    (next : ∀ e', Walk knows mode e₀ e' (σ.temp width) A Λ W c → Q σ.next e') :
    Out (Emit.newTemp width) fs e E Q := by
  have same := walk.slots
  have start : e.nextSlot = σ.next := congrArg Slots.next same
  unfold Emit.newTemp
  simp only [Emit.outBind, Emit.outGet, Emit.outSet, Emit.outPure]
  rw [start]
  refine next _ (walk.moved rfl rfl rfl ?_ (Nat.le_max_right _ _) (Nat.le_max_left _ _))
  rw [← same]
  rfl

end Walk

end QueryMachine
