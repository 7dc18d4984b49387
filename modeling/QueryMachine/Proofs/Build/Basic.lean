import QueryMachine.Build.Logic
import QueryMachine.Proofs.Code.Casting
import QueryMachine.Proofs.Ty.Regular

/-! What building does to its session, and expressions whose emission is a walk. -/
namespace QueryMachine

open Emit (Out)
open Conversion

namespace Build

variable {α β : Type} {s : Session} {E : Error → Session → Prop} {Q : α → Session → Prop}

def Ends (x : Build α) (s : Session) (E : Error → Session → Prop) (Q : α → Session → Prop) : Prop :=
  match x s with
  | (.ok v, s') => Q v s'
  | (.error err, s') => E err s'

theorem bindOk {x : Build β} {f : β → Build α} {v : β} {s' : Session} (ok : x s = (.ok v, s')) :
    (x >>= f) s = f v s' := by
  simp only [bind, ExceptT.bind, ExceptT.mk, StateT.bind]
  rw [ok]
  rfl

theorem bindError {x : Build β} {f : β → Build α} {err : Error} {s' : Session}
    (failed : x s = (.error err, s')) : (x >>= f) s = (.error err, s') := by
  simp only [bind, ExceptT.bind, ExceptT.mk, StateT.bind]
  rw [failed]
  rfl

@[simp] theorem endsBind {x : Build β} {f : β → Build α} :
    Ends (x >>= f) s E Q ↔ Ends x s E (fun v s' => Ends (f v) s' E Q) := by
  unfold Ends
  rcases answer : x s with ⟨err | v, s'⟩
  · rw [bindError answer]
  · rw [bindOk answer]

@[simp] theorem endsPure {v : α} : Ends (pure v) s E Q ↔ Q v s := Iff.rfl

@[simp] theorem endsFail {c : Cause} : Ends (fail c : Build α) s E Q ↔ E (.of c) s := Iff.rfl

@[simp] theorem endsThrow {err : Error} : Ends (throw err : Build α) s E Q ↔ E err s := Iff.rfl

@[simp] theorem endsGet {Q : Session → Session → Prop} : Ends (get : Build Session) s E Q ↔ Q s s := Iff.rfl

@[simp] theorem endsSet {s' : Session} {Q : PUnit → Session → Prop} :
    Ends (set s' : Build PUnit) s E Q ↔ Q ⟨⟩ s' := Iff.rfl

theorem Ends.mono {x : Build α} {E' : Error → Session → Prop} {Q' : α → Session → Prop} (h : Ends x s E Q)
    (values : ∀ v s', Q v s' → Q' v s') (errors : ∀ err s', E err s' → E' err s') : Ends x s E' Q' := by
  unfold Ends at *
  rcases answer : x s with ⟨err | v, s'⟩
  · simp only [answer] at h ⊢
    exact errors err s' h
  · simp only [answer] at h ⊢
    exact values v s' h

theorem Ends.ok {x : Build α} {v : α} {s' : Session} (h : Ends x s E Q) (is : x s = (.ok v, s')) : Q v s' := by
  unfold Ends at h
  rw [is] at h
  exact h

theorem Ends.error {x : Build α} {err : Error} {s' : Session} (h : Ends x s E Q) (is : x s = (.error err, s')) :
    E err s' := by
  unfold Ends at h
  rw [is] at h
  exact h

theorem endsLift {x : Except Error α} : Ends (lift x) s E Q ↔ match x with
    | .ok v => Q v s
    | .error err => E err s := by
  cases x <;> exact Iff.rfl

end Build

def Session.Near (s s' : Session) : Prop := ∃ n, s' = { s with nextSite := n }

theorem Session.Near.refl (s : Session) : s.Near s := ⟨s.nextSite, rfl⟩

theorem Session.Near.trans {s s' s'' : Session} (first : s.Near s') (second : s'.Near s'') : s.Near s'' := by
  obtain ⟨n, rfl⟩ := first
  obtain ⟨m, rfl⟩ := second
  exact ⟨m, rfl⟩

def Steady {α : Type} (x : Build α) (P : α → Prop) : Prop :=
  ∀ s, x.Ends s (fun err s' => err.cause.isInternal = false ∧ s.Near s') fun v s' => P v ∧ s.Near s'

section

variable {α β : Type} {P : α → Prop} {R : β → Prop}

theorem steadyPure {v : α} (h : P v) : Steady (pure v) P := fun s => ⟨h, .refl s⟩

theorem steadyFail {c : Cause} (refusal : c.isInternal = false) : Steady (Build.fail c) P := fun s => ⟨refusal, .refl s⟩

theorem steadyBind {x : Build α} {f : α → Build β} (first : Steady x P) (second : ∀ v, P v → Steady (f v) R) :
    Steady (x >>= f) R := by
  intro s
  rw [Build.endsBind]
  refine (first s).mono ?_ fun _ _ h => h
  intro v s' ⟨h, near⟩
  refine (second v h s').mono ?_ ?_
  · intro w s'' ⟨made, more⟩
    exact ⟨made, near.trans more⟩
  · intro err s'' ⟨refusal, more⟩
    exact ⟨refusal, near.trans more⟩

theorem steadyLift {x : Except Error α} (errors : ∀ err, x = .error err → err.cause.isInternal = false)
    (values : ∀ v, x = .ok v → P v) : Steady (Build.lift x) P := by
  intro s
  cases x with
  | error err => exact ⟨errors err rfl, .refl s⟩
  | ok v => exact ⟨values v rfl, .refl s⟩

theorem steadyDynamic (d : Dynamic) : Steady (Build.dynamic d) fun o => ∃ site, o = .dynamic site d := by
  intro s
  exact ⟨⟨s.nextSite, rfl⟩, s.nextSite + 1, rfl⟩

theorem Steady.mono {x : Build α} {P' : α → Prop} (h : Steady x P) (weaker : ∀ v, P v → P' v) : Steady x P' := by
  intro s
  exact (h s).mono (fun v s' is => ⟨weaker v is.1, is.2⟩) fun _ _ is => is

theorem steadyForM {ι : Type} {f : ι → Build PUnit} {H : ι → Prop} {items : List ι}
    (each : ∀ i ∈ items, Steady (f i) fun _ => H i) : Steady (items.forM f) fun _ => ∀ i ∈ items, H i := by
  induction items with
  | nil => exact steadyPure nofun
  | cons i is ih =>
    refine steadyBind (each i List.mem_cons_self) ?_
    intro _ here
    refine (ih fun j inside => each j (List.mem_cons_of_mem i inside)).mono ?_
    intro _ rest j inside
    rcases List.mem_cons.1 inside with rfl | later
    · exact here
    · exact rest j later

end

/-- An expression of a regular type whose code leaves a value of it. -/
structure Expr.Writes (E : Error → Prop) (knows : String → Prop) (Γ : Frames → Slots → Prop)
    (K : Slots → Asm → Prop) (x : Expr) : Prop where
  regular : x.type.Regular knows
  emits : Emits E knows Γ x.type.width K x.generate

namespace Expr.Writes

variable {E : Error → Prop} {knows knows' : String → Prop} {Γ Γ' : Frames → Slots → Prop} {K K' : Slots → Asm → Prop}
  {x : Expr}

theorem later (writes : x.Writes E knows Γ K) (more : ∀ cls, knows cls → knows' cls)
    (fewer : ∀ fs σ, Γ' fs σ → Γ fs σ) : x.Writes E knows' Γ' K :=
  ⟨writes.regular.mono more, writes.emits.later more fewer⟩

theorem mono (writes : x.Writes E knows Γ K) (weaker : ∀ σ X, K σ X → K' σ X) : x.Writes E knows Γ K' :=
  ⟨writes.regular, writes.emits.mono weaker⟩

end Expr.Writes

theorem Emit.forMCons {ι : Type} (i : ι) (is : List ι) (f : ι → Emit Unit) :
    (i :: is).forM f = (do f i; is.forM f) := rfl

theorem Emit.forMNil {ι : Type} (f : ι → Emit Unit) : [].forM f = pure () := rfl

theorem Emit.forMMap {ι κ : Type} (items : List ι) (g : ι → κ) (f : κ → Emit Unit) :
    (items.map g).forM f = items.forM fun i => f (g i) := by
  induction items with
  | nil => rfl
  | cons i is ih => exact congrArg (fun rest => f (g i) >>= fun _ => rest) ih

def Each {ι : Type} (R : ι → Asm → Prop) : List ι → Asm → Prop
  | [], X => X = []
  | i :: is, X => ∃ B C, R i B ∧ Each R is C ∧ X = B ++ C

theorem eachInside {ι : Type} {R : ι → Asm → Prop} {items : List ι} {X : Asm} (each : Each R items X) {i : ι}
    (inside : i ∈ items) : ∃ P B S, R i B ∧ X = P ++ B ++ S := by
  induction items generalizing X with
  | nil => contradiction
  | cons j items ih =>
    obtain ⟨B, C, piece, rest, rfl⟩ := each
    rcases List.mem_cons.1 inside with rfl | later
    · exact ⟨[], B, C, piece, rfl⟩
    · obtain ⟨P, D, S, is, rfl⟩ := ih rest later
      exact ⟨B ++ P, D, S, is, by simp only [List.append_assoc]⟩

/-- Code that goes on when the value of an expression holds, else leaves for `isFalse`. -/
def Tests (K : Slots → Asm → Prop) (t : Ty) (isFalse : Label) (σ : Slots) (X : Asm) : Prop :=
  ∃ B p done os, K σ B ∧ t.truth? = some p ∧ castOps? (.prim p) t = some os ∧
    X = B ++ Asm.nullTest t isFalse done ++ Asm.straight os ++ Asm.straight (zeroOps p) ++ [.op (.ifZero .eq isFalse)]

def Converted (K : Slots → Asm → Prop) (target source : Ty) (σ : Slots) (X : Asm) : Prop :=
  ∃ B os, K σ B ∧ castOps? target source = some os ∧ X = B ++ Asm.straight os

namespace Walk

variable {knows : String → Prop} {mode : Option Nat} {fs : Frames} {e₀ e : Emitter} {σ : Slots} {A : Asm}
  {Λ : List (Label × Nat)} {W : Label → Prop} {c : Option Nat} {k : Nat} {E : Error → Prop} {Q : Unit → Emitter → Prop}
  {Γ : Frames → Slots → Prop} {K : Slots → Asm → Prop}

theorem outForM {ι : Type} {f : ι → Emit Unit} {R : ι → Asm → Prop} {items : List ι}
    (each : ∀ i ∈ items, ∀ e A (Q : Unit → Emitter → Prop), Walk knows mode e₀ e σ A Λ W (some k) →
      (∀ e' B, R i B → Walk knows mode e₀ e' σ (A ++ B) Λ W (some k) → Q () e') → Out (f i) fs e E Q)
    (walk : Walk knows mode e₀ e σ A Λ W (some k))
    (next : ∀ e' B, Each R items B → Walk knows mode e₀ e' σ (A ++ B) Λ W (some k) → Q () e') :
    Out (items.forM f) fs e E Q := by
  induction items generalizing e A with
  | nil => exact next e [] rfl (by simpa using walk)
  | cons i is ih =>
    change Out (f i >>= fun _ => is.forM f) fs e E Q
    rw [Emit.outBind]
    refine each i List.mem_cons_self e A _ walk ?_
    intro e₁ B piece walk
    refine ih (fun j inside => each j (List.mem_cons_of_mem i inside)) walk ?_
    intro e₂ C pieces walk
    exact next e₂ (B ++ C) ⟨B, C, piece, pieces, rfl⟩ (by simpa using walk)

theorem outBranchFalse {test : Expr} {isFalse : Label} (writes : test.Writes E knows Γ K)
    (may : test.type.truth? = none → ∀ a b, E (.of (.incompatibleCast a b))) (visible : Γ fs σ)
    (walk : Walk knows mode e₀ e σ A Λ W (some k)) (made : (isFalse, k) ∈ Λ)
    (next : ∀ e' B, Tests K test.type isFalse σ B → Walk knows mode e₀ e' σ (A ++ B) Λ W (some k) → Q () e') :
    Out (Build.branchFalse test isFalse) fs e E Q := by
  unfold Build.branchFalse
  rw [Emit.outBind]
  refine walk.outPart writes.emits visible ?_
  intro e₁ X shape walk
  cases truth : test.type.truth? with
  | some p =>
    refine walk.outTruth truth made ?_
    intro e₂ done os is walk
    refine next e₂ _ ⟨X, p, done, os, shape, truth, is, rfl⟩ ?_
    simpa using walk
  | none =>
    have refused := may truth
    unfold Ty.truth? at truth
    split at truth
    · contradiction
    · next other =>
      rw [if_neg other, Emit.testFalse, truth, Emit.outFail]
      exact refused _ _

theorem outChoose {first second : Int32} {other done : Label} (walk : Walk knows mode e₀ e σ A Λ W (some k))
    (waitsOther : W other) (waitsDone : W done) (apart : done ≠ other) (madeOther : (other, k) ∈ Λ)
    (madeDone : (done, k + 1) ∈ Λ)
    (next : ∀ e', Walk knows mode e₀ e' σ (A ++ Asm.choice first second other done) Λ
      (fun x => (W x ∧ x ≠ other) ∧ x ≠ done) (some (k + 1)) → Q () e') :
    Out (Build.choose first second other done) fs e E Q := by
  unfold Build.choose
  simp only [Emit.opsCons, Emit.opsNil, Emit.outBind, Emit.outPure]
  refine walk.outPlain ⟨rfl, rfl, rfl, rfl⟩ (Nat.zero_le k) ?_
  intro e₁ walk
  refine Walk.outJump (k := k + 1) walk madeDone ?_
  intro e₂ walk
  refine walk.outMark waitsOther madeOther (.inl rfl) ?_
  intro e₃ walk
  refine walk.outPlain ⟨rfl, rfl, rfl, rfl⟩ (Nat.zero_le k) ?_
  intro e₄ walk
  refine walk.outMark ⟨waitsDone, apart⟩ madeDone (.inr rfl) ?_
  intro e₅ walk
  exact next e₅ (by simpa [Asm.choice] using walk)

theorem outAs {x : Expr} {type : Ty} (writes : x.Writes E knows Γ K) (visible : Γ fs σ)
    (walk : Walk knows mode e₀ e σ A Λ W (some k))
    (may : castOps? type x.type = none → ∀ a b, E (.of (.incompatibleCast a b)))
    (next : ∀ e' B, Converted K type x.type σ B →
      Walk knows mode e₀ e' σ (A ++ B) Λ W (some (k + type.width)) → Q () e') :
    Out (x.generateAs type) fs e E Q := by
  unfold Expr.generateAs
  rw [Emit.outBind]
  refine walk.outPart writes.emits visible ?_
  intro e₁ X shape walk
  refine walk.outCast writes.regular.sized may ?_
  intro e₂ os is walk
  refine next e₂ _ ⟨X, os, shape, is, rfl⟩ ?_
  simpa using walk

theorem finished {P : Asm → Prop} {X : Asm} {d width : Nat} (walk : Walk knows none e₀ e σ A Λ W (some d)) (shape : P X)
    (same : A = X) (depth : d = width) (settled : ∀ l, ¬ W l) :
    ∃ X Λ W, P X ∧ (∀ l, ¬ W l) ∧ Walk knows none e₀ e σ X Λ W (some width) :=
  ⟨X, Λ, W, shape, settled, by rw [← same, ← depth]; exact walk⟩

end Walk

theorem emitsOf {E : Error → Prop} {knows : String → Prop} {Γ : Frames → Slots → Prop} {width : Nat}
    {K : Slots → Asm → Prop} {x : Emit Unit}
    (from_ : ∀ fs e, Γ fs e.slots → Walk knows none e e e.slots [] [] (fun _ => False) (some 0) →
      Out x fs e E fun _ e' => ∃ X Λ W, K e.slots X ∧ (∀ l, ¬ W l) ∧ Walk knows none e e' e.slots X Λ W (some width)) :
    Emits E knows Γ width K x := by
  intro fs e visible room
  refine (from_ fs e visible (.start room)).mono ?_ fun _ h => h
  intro _ e' ⟨X, Λ, W, shape, settled, walk⟩
  exact ⟨X, shape, walk.forget (List.nil_subset _) fun l => ⟨fun h => settled l h, False.elim⟩⟩

end QueryMachine
