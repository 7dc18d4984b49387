import QueryMachine.Proofs.Code.Flow
import QueryMachine.Proofs.Effects

/-! Emission followed step by step. A walk says what has been written since it began, which labels still wait to
be bound, and how deep the stack is. -/
namespace QueryMachine

open Verify (after)

namespace Emit

variable {α β : Type} {fs : Frames} {e : Emitter} {E : Error → Prop} {Q : α → Emitter → Prop}

def Out (x : Emit α) (fs : Frames) (e : Emitter) (E : Error → Prop) (Q : α → Emitter → Prop) : Prop :=
  match x fs e with
  | (.ok v, e') => Q v e'
  | (.error err, _) => E err

theorem bindOk {x : Emit β} {f : β → Emit α} {v : β} {e' : Emitter} (ok : x fs e = (.ok v, e')) :
    (x >>= f) fs e = f v fs e' := by
  simp only [bind, ReaderT.bind, ExceptT.bind, ExceptT.mk, StateT.bind]
  rw [ok]
  rfl

theorem bindError {x : Emit β} {f : β → Emit α} {err : Error} {e' : Emitter}
    (failed : x fs e = (.error err, e')) : (x >>= f) fs e = (.error err, e') := by
  simp only [bind, ReaderT.bind, ExceptT.bind, ExceptT.mk, StateT.bind]
  rw [failed]
  rfl

@[simp] theorem outBind {x : Emit β} {f : β → Emit α} :
    Out (x >>= f) fs e E Q ↔ Out x fs e E (fun v e' => Out (f v) fs e' E Q) := by
  unfold Out
  rcases answer : x fs e with ⟨err | v, e'⟩
  · rw [bindError answer]
  · rw [bindOk answer]

@[simp] theorem outPure {v : α} : Out (pure v) fs e E Q ↔ Q v e := Iff.rfl

@[simp] theorem outFail {c : Cause} : Out (fail c : Emit α) fs e E Q ↔ E (.of c) := Iff.rfl

@[simp] theorem outGet {Q : Emitter → Emitter → Prop} : Out (get : Emit Emitter) fs e E Q ↔ Q e e := Iff.rfl

@[simp] theorem outSet {e' : Emitter} {Q : PUnit → Emitter → Prop} :
    Out (set e' : Emit PUnit) fs e E Q ↔ Q ⟨⟩ e' := Iff.rfl

@[simp] theorem outRead {Q : Frames → Emitter → Prop} : Out (read : Emit Frames) fs e E Q ↔ Q fs e := Iff.rfl

theorem tryOk {x : Emit α} {f : Error → Emit α} {v : α} {e' : Emitter} (ok : x fs e = (.ok v, e')) :
    tryCatch x f fs e = (.ok v, e') := by
  change ExceptT.tryCatch (x fs) (fun err => f err fs) e = _
  simp only [ExceptT.tryCatch, ExceptT.mk, bind, StateT.bind, ok]
  rfl

theorem tryError {x : Emit α} {f : Error → Emit α} {err : Error} {e' : Emitter} (failed : x fs e = (.error err, e')) :
    tryCatch x f fs e = f err fs e' := by
  change ExceptT.tryCatch (x fs) (fun err => f err fs) e = _
  simp only [ExceptT.tryCatch, ExceptT.mk, bind, StateT.bind, failed]

theorem outTry {x : Emit (Option Error)} {Q : Option Error → Emitter → Prop}
    (out : Out x fs e (fun err => ∀ e', Q (some err) e') Q) :
    Out (tryCatch x fun err => return some err) fs e E Q := by
  unfold Out at *
  rcases answer : x fs e with ⟨err | v, e'⟩
  · rw [tryError answer]
    simp only [answer] at out
    exact out e'
  · rw [tryOk answer]
    simp only [answer] at out
    exact out

theorem outRethrow {x : Emit Unit} {err : Error} (is : E err) :
    Out (do
      tryCatch x fun _ => return ()
      throw err : Emit α) fs e E Q := by
  rw [outBind]
  unfold Out
  rcases answer : x fs e with ⟨err' | v, e'⟩
  · rw [tryError answer]
    exact is
  · rw [tryOk answer]
    exact is

theorem Out.mono {x : Emit α} {Q' : α → Emitter → Prop} {E' : Error → Prop} (h : Out x fs e E Q)
    (values : ∀ v e', Q v e' → Q' v e') (errors : ∀ err, E err → E' err) : Out x fs e E' Q' := by
  unfold Out at *
  rcases answer : x fs e with ⟨err | v, e'⟩
  · simp only [answer] at h ⊢
    exact errors err h
  · simp only [answer] at h ⊢
    exact values v e' h

theorem outLabels {P : List Label → Emitter → Prop} {Q : List Label → Emitter → Prop} (n : Nat) (start : P [] e)
    (step : ∀ made e, P made e → Out newLabel fs e E fun l e' => P (made ++ [l]) e')
    (next : ∀ made e', made.length = n → P made e' → Q made e') : Out (newLabels n) fs e E Q := by
  have all : ∀ (items : List Nat) before e, P before e →
      Out (items.mapM fun _ => newLabel) fs e E fun made e' => made.length = items.length ∧ P (before ++ made) e' := by
    intro items
    induction items with
    | nil =>
      intro before e holds
      exact ⟨rfl, (List.append_nil before).symm ▸ holds⟩
    | cons item items ih =>
      intro before e holds
      rw [List.mapM_cons, outBind]
      refine (step before e holds).mono ?_ fun _ h => h
      intro l e₁ holds
      rw [outBind]
      refine (ih _ e₁ holds).mono ?_ fun _ h => h
      intro made e₂ ⟨length, holds⟩
      rw [outPure]
      exact ⟨congrArg (· + 1) length, by simpa using holds⟩
  have made := all (List.range n) [] e start
  rw [List.length_range] at made
  exact made.mono (fun made e' h => next made e' h.1 h.2) fun _ h => h

structure Fresh (W : Label → Prop) (made : List Label) : Prop where
  distinct : made.Nodup
  apart : ∀ l ∈ made, ¬ W l

theorem freshNone (W : Label → Prop) : Fresh W [] := ⟨List.Pairwise.nil, nofun⟩

theorem Fresh.add {W : Label → Prop} {made : List Label} {l : Label} (fresh : Fresh W made) (new : ¬ (l ∈ made ∨ W l)) :
    Fresh W (made ++ [l]) where
  distinct := by
    refine List.nodup_append.2 ⟨fresh.distinct, List.pairwise_singleton _ _, ?_⟩
    rintro x inside _ (_ | ⟨_, none⟩) rfl
    · exact new (.inl inside)
    · contradiction
  apart x inside := by
    rcases List.mem_append.1 inside with older | last
    · exact fresh.apart x older
    · exact List.mem_singleton.1 last ▸ fun waits => new (.inr waits)

theorem waitsNew {W : Label → Prop} {made : List Label} {l x : Label} :
    (x = l ∨ x ∈ made ∨ W x) ↔ (x ∈ made ++ [l] ∨ W x) := by
  rw [List.mem_append, List.mem_singleton, ← or_assoc, @or_comm (x = l)]

theorem opsNil : ops [] = pure () := by
  funext fs e
  change (Except.ok (), { e with ops := e.ops ++ #[] }) = (.ok (), e)
  rw [Array.append_empty]

theorem opsCons {o : Op} {os : List Op} : ops (o :: os) = (do op o; ops os) := by
  funext fs e
  change (Except.ok (), { e with ops := e.ops ++ (o :: os).toArray }) =
    (.ok (), { e with ops := e.ops.push o ++ os.toArray })
  simp

end Emit

/-! ### Slots -/

structure Slots where
  active : List ActiveFrame
  next : Nat

namespace Slots

def find? (σ : Slots) (l : Local) : Option Nat :=
  σ.active.findSome? fun a => if a.frame = l.frame then a.slots[l.index]? else none

def Holds (σ : Slots) (l : Local) (s : Nat) : Prop := σ.find? l = some s ∧ s + max l.type.width 1 ≤ σ.next

end Slots

def Emitter.slots (e : Emitter) : Slots := ⟨e.active, e.nextSlot⟩

/-! ### Walks -/

/-- Emission from `e₀` to `e`, where locals are at `σ`. `A` is what was written, `Λ` the labels made since the
start with the depths there, `W` those of them that wait to be bound, `c` the depth now; depths count from
the depth at the start. With `mode` it is a whole body that returns that many slots. -/
structure Walk (knows : String → Prop) (mode : Option Nat) (e₀ e : Emitter) (σ : Slots) (A : Asm)
    (Λ : List (Label × Nat)) (W : Label → Prop) (c : Option Nat) : Prop where
  ops : e.ops.toList = e₀.ops.toList ++ Asm.ops A
  grows : e₀.labels.size ≤ e.labels.size
  old : ∀ l, l < e₀.labels.size → e.labels[l]? = e₀.labels[l]?
  unbound : ∀ l, W l → e₀.labels.size ≤ l ∧ e.labels[l]? = some none
  bound : ∀ l, e₀.labels.size ≤ l → l < e.labels.size → W l ∨ ∃ p, (l, p) ∈ Asm.marks e₀.ops.size A
  placed : ∀ l p, (l, p) ∈ Asm.marks e₀.ops.size A → e.labels[l]? = some (some p)
  inner : ∀ o ∈ Asm.ops A, ∀ l ∈ o.targets, e₀.labels.size ≤ l ∧ l < e.labels.size
  own : ∀ l k, (l, k) ∈ Λ → e₀.labels.size ≤ l ∧ l < e.labels.size
  typed : ∀ d, (mode.isSome = true → d = 0) → ∀ G₀ : Label → Nat, ∃ G : Label → Nat,
    (∀ l, l < e₀.labels.size → G l = G₀ l) ∧ (∀ l k, (l, k) ∈ Λ → G l = d + k) ∧
    ∀ G' : Label → Nat, (∀ l, l < e.labels.size → G' l = G l) → ∀ b : Limits, e.maxLocals ≤ b.locals →
      (∀ n, mode = some n → b.returns = n) → (∀ cls, knows cls → b.knows cls) →
      Flows b G' A (some d) (c.map (d + ·))
  slots : e.slots = σ
  room : σ.next ≤ e.maxLocals
  locals : e₀.maxLocals ≤ e.maxLocals
  handlers : e.handlers = e₀.handlers

/-- What an operation needs at a depth counted from the start of a walk. -/
structure Fits (knows : String → Prop) (mode : Option Nat) (maxLocals : Nat) (Λ : List (Label × Nat)) (k : Nat)
    (o : Op) : Prop where
  enough : o.effect.1 ≤ k
  targets : ∀ l ∈ o.targets, (l, after o k) ∈ Λ
  slots : ∀ first last, Verify.slots? o = some (first, last) → last < maxLocals
  returns : ∀ n, o = .ret n → mode = some n ∧ k = n
  member : ∀ cls, o.memberClass? = some cls → knows cls

namespace Walk

variable {knows : String → Prop} {mode : Option Nat} {e₀ e : Emitter} {σ : Slots} {A : Asm}
  {Λ : List (Label × Nat)} {W : Label → Prop} {c : Option Nat} {k : Nat}

theorem start (room : e.nextSlot ≤ e.maxLocals) :
    Walk knows mode e e e.slots [] [] (fun _ => False) (some 0) where
  ops := by simp
  grows := Nat.le_refl _
  old _ _ := rfl
  unbound _ h := h.elim
  bound l low high := absurd (Nat.lt_of_lt_of_le high low) (Nat.lt_irrefl l)
  placed _ _ h := by simp at h
  inner _ h := by simp at h
  own _ _ h := by simp at h
  typed d _ G₀ := ⟨G₀, fun _ _ => rfl, fun _ _ h => by simp at h, fun _ _ _ _ _ _ => rfl⟩
  slots := rfl
  room := room
  locals := Nat.le_refl _
  handlers := rfl

theorem allowed {b : Limits} {o : Op} {d : Nat} (fits : Fits knows mode e.maxLocals Λ k o)
    (top : mode.isSome = true → d = 0) (locals : e.maxLocals ≤ b.locals)
    (returns : ∀ n, mode = some n → b.returns = n) (known : ∀ cls, knows cls → b.knows cls) :
    b.Allows (d + k) o where
  enough := Nat.le_trans fits.enough (Nat.le_add_left k d)
  slots first last h := Nat.lt_of_lt_of_le (fits.slots first last h) locals
  returns n h := by
    obtain ⟨is, same⟩ := fits.returns n h
    have zero : d = 0 := top (by simp [is])
    exact ⟨by omega, (returns n is).symm⟩
  member cls h := known cls (fits.member cls h)

theorem afterAdd {o : Op} {d : Nat} (enough : o.effect.1 ≤ k) : after o (d + k) = d + after o k := by
  unfold after
  omega

theorem push {o : Op} {c' : Option Nat} (walk : Walk knows mode e₀ e σ A Λ W c)
    (targets : ∀ l ∈ o.targets, ∃ j, (l, j) ∈ Λ)
    (flows : ∀ d, (mode.isSome = true → d = 0) → ∀ G : Label → Nat, (∀ l j, (l, j) ∈ Λ → G l = d + j) →
      ∀ b : Limits, e.maxLocals ≤ b.locals → (∀ n, mode = some n → b.returns = n) → (∀ cls, knows cls → b.knows cls) →
      Flows b G [.op o] (c.map (d + ·)) (c'.map (d + ·))) :
    Walk knows mode e₀ { e with ops := e.ops.push o } σ (A ++ [.op o]) Λ W c' where
  ops := by simp [walk.ops]
  grows := walk.grows
  old := walk.old
  unbound := walk.unbound
  bound l low high := by
    rcases walk.bound l low high with waits | ⟨p, marked⟩
    · exact .inl waits
    · exact .inr ⟨p, by simp [marked]⟩
  placed l p h := walk.placed l p (by simpa using h)
  inner o' member l target := by
    simp only [Asm.opsAppend, Asm.opsOp, Asm.opsNil, List.mem_append, List.mem_singleton] at member
    rcases member with before | rfl
    · exact walk.inner o' before l target
    · obtain ⟨j, made⟩ := targets l target
      exact walk.own l j made
  own := walk.own
  typed d top G₀ := by
    obtain ⟨G, old, own, before⟩ := walk.typed d top G₀
    refine ⟨G, old, own, ?_⟩
    intro G' same b locals returns known
    refine flowsAppend (before G' same b locals returns known) (flows d top G' ?_ b locals returns known)
    intro l j made
    rw [same l (walk.own l j made).2, own l j made]
  slots := walk.slots
  room := walk.room
  locals := walk.locals
  handlers := walk.handlers

theorem op {o : Op} (walk : Walk knows mode e₀ e σ A Λ W (some k)) (fits : Fits knows mode e.maxLocals Λ k o) :
    Walk knows mode e₀ { e with ops := e.ops.push o } σ (A ++ [.op o]) Λ W (fallDepth o k) := by
  refine walk.push (fun l target => ⟨_, fits.targets l target⟩) ?_
  intro d top G own b locals returns known
  refine ⟨allowed fits top locals returns known, ?_, ?_⟩
  · intro l target
    rw [own l _ (fits.targets l target), afterAdd fits.enough]
  · change fallDepth o (d + k) = (fallDepth o k).map (d + ·)
    unfold fallDepth
    split
    · simp [afterAdd fits.enough]
    · rfl

theorem dead {o : Op} (walk : Walk knows mode e₀ e σ A Λ W none) (targets : o.targets = [])
    (member : o.memberClass? = none) :
    Walk knows mode e₀ { e with ops := e.ops.push o } σ (A ++ [.op o]) Λ W none := by
  refine walk.push (by simp [targets]) ?_
  intro d top G own b locals returns known
  exact ⟨by simp [member], rfl⟩

theorem label (walk : Walk knows mode e₀ e σ A Λ W c) (j : Nat) :
    Walk knows mode e₀ { e with labels := e.labels.push none } σ A ((e.labels.size, j) :: Λ)
      (fun l => l = e.labels.size ∨ W l) c where
  ops := walk.ops
  grows := by
    have := walk.grows
    simp only [Array.size_push]
    omega
  old l low := by
    have := walk.grows
    rw [Array.getElem?_push, if_neg (by omega)]
    exact walk.old l low
  unbound l h := by
    rw [Array.getElem?_push]
    rcases h with rfl | waits
    · exact ⟨walk.grows, if_pos rfl⟩
    · obtain ⟨low, is⟩ := walk.unbound l waits
      have high := (Array.getElem?_eq_some_iff.1 is).1
      rw [if_neg (by omega)]
      exact ⟨low, is⟩
  bound l low high := by
    simp only [Array.size_push] at high
    by_cases new : l = e.labels.size
    · exact .inl (.inl new)
    · rcases walk.bound l low (by omega) with waits | marked
      · exact .inl (.inr waits)
      · exact .inr marked
  placed l p h := by
    have is := walk.placed l p h
    have high := (Array.getElem?_eq_some_iff.1 is).1
    rw [Array.getElem?_push, if_neg (by omega)]
    exact is
  inner o member l target := by
    obtain ⟨low, high⟩ := walk.inner o member l target
    exact ⟨low, by simp only [Array.size_push]; exact Nat.lt_succ_of_lt high⟩
  own l i h := by
    simp only [Array.size_push]
    rcases List.mem_cons.1 h with is | older
    · cases is
      exact ⟨walk.grows, Nat.lt_succ_self _⟩
    · obtain ⟨low, high⟩ := walk.own l i older
      exact ⟨low, Nat.lt_succ_of_lt high⟩
  typed d top G₀ := by
    obtain ⟨G, old, own, flows⟩ := walk.typed d top G₀
    refine ⟨fun l => if l = e.labels.size then d + j else G l, ?_, ?_, ?_⟩
    · intro l low
      have other : l ≠ e.labels.size := Nat.ne_of_lt (Nat.lt_of_lt_of_le low walk.grows)
      exact (if_neg other).trans (old l low)
    · intro l i h
      rcases List.mem_cons.1 h with is | older
      · cases is
        exact if_pos rfl
      · exact (if_neg (Nat.ne_of_lt (walk.own l i older).2)).trans (own l i older)
    · intro G' same b
      refine flows G' ?_ b
      intro l high
      have known := same l (by simp only [Array.size_push]; exact Nat.lt_succ_of_lt high)
      exact known.trans (if_neg (Nat.ne_of_lt high))
  slots := walk.slots
  room := walk.room
  locals := walk.locals
  handlers := walk.handlers

theorem mark {l : Label} {j : Nat} (walk : Walk knows mode e₀ e σ A Λ W c) (waits : W l) (made : (l, j) ∈ Λ)
    (meets : c = none ∨ c = some j) :
    Walk knows mode e₀ { e with labels := e.labels.setIfInBounds l (some e.ops.size) } σ (A ++ [.mark l]) Λ
      (fun x => W x ∧ x ≠ l) (some j) where
  ops := by simp [walk.ops]
  grows := by simpa using walk.grows
  old x low := by
    obtain ⟨other, _⟩ := walk.unbound l waits
    rw [Array.getElem?_setIfInBounds_ne (by omega)]
    exact walk.old x low
  unbound x h := by
    rw [Array.getElem?_setIfInBounds_ne (Ne.symm h.2)]
    exact walk.unbound x h.1
  bound x low high := by
    simp only [Array.size_setIfInBounds] at high
    by_cases here : x = l
    · exact .inr ⟨e₀.ops.size + (Asm.ops A).length, by simp [here]⟩
    · rcases walk.bound x low high with still | ⟨p, marked⟩
      · exact .inl ⟨still, here⟩
      · exact .inr ⟨p, by simp [marked]⟩
  placed x p h := by
    obtain ⟨_, unbound⟩ := walk.unbound l waits
    have size : e.ops.size = e₀.ops.size + (Asm.ops A).length := by
      have := congrArg List.length walk.ops
      simpa using this
    simp only [Asm.marksAppend, Asm.marksMark, Asm.marksNil, List.mem_append, List.mem_singleton] at h
    rcases h with before | here
    · have is := walk.placed x p before
      have other : l ≠ x := by
        rintro rfl
        rw [unbound] at is
        cases is
      rw [Array.getElem?_setIfInBounds_ne other]
      exact is
    · obtain ⟨rfl, rfl⟩ := Prod.mk.inj here
      have high := (Array.getElem?_eq_some_iff.1 unbound).1
      rw [Array.getElem?_setIfInBounds_self_of_lt high, size]
  inner o member x target := by
    simp only [Array.size_setIfInBounds]
    exact walk.inner o (by simpa using member) x target
  own x i h := by
    simp only [Array.size_setIfInBounds]
    exact walk.own x i h
  typed d top G₀ := by
    obtain ⟨G, old, own, flows⟩ := walk.typed d top G₀
    refine ⟨G, old, own, ?_⟩
    intro G' same b locals returns known
    simp only [Array.size_setIfInBounds] at same
    have depth : G' l = d + j := by
      rw [same l (walk.own l j made).2, own l j made]
    refine flowsAppend (flows G' same b locals returns known) ⟨?_, ?_⟩
    · rcases meets with rfl | rfl
      · exact .inl rfl
      · exact .inr (by simp [depth])
    · change some (G' l) = _
      simp [depth]
  slots := walk.slots
  room := walk.room
  locals := walk.locals
  handlers := walk.handlers

theorem append {e' : Emitter} {σ' : Slots} {B : Asm} {Λ' : List (Label × Nat)} {j : Option Nat}
    (walk : Walk knows mode e₀ e σ A Λ W (some k))
    (part : Walk knows none e e' σ' B Λ' (fun _ => False) j) :
    Walk knows mode e₀ e' σ' (A ++ B) Λ W (j.map (k + ·)) where
  ops := by simp [part.ops, walk.ops]
  grows := Nat.le_trans walk.grows part.grows
  old l low := by
    rw [part.old l (Nat.lt_of_lt_of_le low walk.grows), walk.old l low]
  unbound l h := by
    obtain ⟨low, is⟩ := walk.unbound l h
    rw [part.old l (Array.getElem?_eq_some_iff.1 is).1]
    exact ⟨low, is⟩
  bound l low high := by
    have size := sizeOf walk
    by_cases before : l < e.labels.size
    · rcases walk.bound l low before with waits | ⟨p, marked⟩
      · exact .inl waits
      · exact .inr ⟨p, by simp [marked]⟩
    · rcases part.bound l (by omega) high with waits | ⟨p, marked⟩
      · exact waits.elim
      · refine .inr ⟨p, ?_⟩
        rw [size] at marked
        simp [marked]
  placed l p h := by
    have size := sizeOf walk
    rw [Asm.marksAppend, ← size, List.mem_append] at h
    rcases h with before | after
    · have is := walk.placed l p before
      rw [part.old l (Array.getElem?_eq_some_iff.1 is).1]
      exact is
    · exact part.placed l p after
  inner o member l target := by
    simp only [Asm.opsAppend, List.mem_append] at member
    rcases member with before | after
    · obtain ⟨low, high⟩ := walk.inner o before l target
      exact ⟨low, Nat.lt_of_lt_of_le high part.grows⟩
    · obtain ⟨low, high⟩ := part.inner o after l target
      exact ⟨Nat.le_trans walk.grows low, high⟩
  own l i h := by
    obtain ⟨low, high⟩ := walk.own l i h
    exact ⟨low, Nat.lt_of_lt_of_le high part.grows⟩
  typed d top G₀ := by
    obtain ⟨G, old, own, flows⟩ := walk.typed d top G₀
    obtain ⟨G₁, kept, _, more⟩ := part.typed (d + k) nofun G
    refine ⟨G₁, ?_, ?_, ?_⟩
    · intro l low
      rw [kept l (Nat.lt_of_lt_of_le low walk.grows), old l low]
    · intro l i h
      rw [kept l (walk.own l i h).2, own l i h]
    · intro G' same b locals returns known
      have first := flows G' (fun l low => by rw [same l (Nat.lt_of_lt_of_le low part.grows), kept l low]) b
        (Nat.le_trans part.locals locals) returns known
      have second := more G' same b locals nofun known
      refine flowsAppend first ?_
      simpa [Nat.add_assoc, Function.comp_def] using second
  slots := part.slots
  room := part.room
  locals := Nat.le_trans walk.locals part.locals
  handlers := part.handlers.trans walk.handlers
where
  sizeOf {e₀ e : Emitter} {σ : Slots} {A : Asm} {Λ : List (Label × Nat)} {W : Label → Prop} {c : Option Nat}
      (walk : Walk knows mode e₀ e σ A Λ W c) : e.ops.size = e₀.ops.size + (Asm.ops A).length := by
    have := congrArg List.length walk.ops
    simpa using this

end Walk

end QueryMachine
