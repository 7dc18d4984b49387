import QueryMachine.Proofs.Code.Switch
import QueryMachine.Proofs.Scalar.Cast
import QueryMachine.Proofs.Ty.Head

/-! Switches over integers. The selector is cut to 32 bits before its case is looked up, so that a number takes the case
of the key that it is the same as in its low 32 bits. -/
namespace QueryMachine

open Emit (Out)
open Machine
open Conversion

namespace Switch

section

variable {ι : Type} {items : List ι} {key : ι → Int32} {expr : ι → Expr} {K : ι → Slots → Asm → Prop} {x last : Expr}
  {Kx Kd : Slots → Asm → Prop} {c : Scalar} {t : Ty} {E : Error → Prop} {knows : String → Prop} {Γ : Frames → Slots → Prop}

/-- An expression of a type whose code leaves a value of it. The type may be any. -/
structure Leaving (E : Error → Prop) (knows : String → Prop) (Γ : Frames → Slots → Prop) (K : Slots → Asm → Prop) (t : Ty)
    (x : Expr) : Prop where
  type : x.type = t
  emits : Emits E knows Γ t.width K x.generate

def Arm (K : ι → Slots → Asm → Prop) (done : Label) (σ : Slots) (x : Label × ι) (X : Asm) : Prop :=
  ∃ C, K x.2 σ C ∧ X = .mark x.1 :: C ++ [.op (.jump done)]

def dispatchCode (c : Scalar) (cases : List (Int32 × Label)) (fallback present : Label) (os : List Op) : Asm :=
  Asm.nullTest c.type fallback present ++ Asm.straight os ++ [.op (.lookup (Emit.tableOf cases) fallback)]

def Switched (Kx : Slots → Asm → Prop) (c : Scalar) (key : ι → Int32) (items : List ι) (K : ι → Slots → Asm → Prop)
    (Kd : Slots → Asm → Prop) (σ : Slots) (X : Asm) : Prop :=
  ∃ B present os fallback done labels C D, Kx σ B ∧ castOps? .int32 c.type = some os ∧ labels.length = items.length ∧
    Each (Arm K done σ) (labels.zip items) C ∧ Kd σ D ∧
    X = B ++ dispatchCode c ((items.map key).zip labels) fallback present os ++ C ++ (.mark fallback :: D ++ [.mark done])

/-! ### Emission -/

section

variable {mode : Option Nat} {fs : Frames} {e₀ e : Emitter} {σ : Slots} {A : Asm} {Λ : List (Label × Nat)} {W : Label → Prop}
  {k : Nat} {Q : Unit → Emitter → Prop}

theorem Leaving.outAs {K : Slots → Asm → Prop} (leaving : Leaving E knows Γ K t x) (visible : Γ fs σ)
    (walk : Walk knows mode e₀ e σ A Λ W (some k))
    (next : ∀ e' X, K σ X → Walk knows mode e₀ e' σ (A ++ X) Λ W (some (k + t.width)) → Q () e') :
    Out (x.generateAs t) fs e E Q := by
  unfold Expr.generateAs Emit.cast
  rw [leaving.type, if_pos rfl, Emit.outBind]
  exact walk.outPart leaving.emits visible next

theorem outDispatch {labels : List Label} {fallback : Label} {cases : List (Int32 × Expr)} (typed : x.type = c.type)
    (distinct : (cases.map (·.1)).Nodup) (length : labels.length = cases.length) (made : ∀ l ∈ labels, (l, k) ∈ Λ)
    (default : (fallback, k) ∈ Λ) (walk : Walk knows mode e₀ e σ A Λ W (some (k + c.type.width)))
    (next : ∀ e' present os, castOps? .int32 c.type = some os →
      Walk knows mode e₀ e' σ (A ++ dispatchCode c ((cases.map (·.1)).zip labels) fallback present os) Λ W none → Q () e') :
    Out ((integers x cases).dispatch labels fallback) fs e E Q := by
  have found : castOps? .int32 c.type = some (Scalar.castOps ⟨.int32, .raw⟩ c) := Scalar.castIs ⟨.int32, .raw⟩ c
  have keys : (((cases.map (·.1)).zip labels).map (·.1)).Nodup := by
    rwa [List.map_fst_zip (Nat.le_of_eq (by rw [List.length_map, length]))]
  unfold dispatch
  simp only [Emit.outBind, typed]
  refine walk.outCastOrNull ?_ (fun _ => default) ?_ ?_
  · intro void
    have prim := Scalar.typePrim c
    rw [void] at prim
    contradiction
  · intro none
    rw [found] at none
    contradiction
  · intro e₁ present os is walk
    change Out (Emit.op (.lookup (Emit.tableOf ((cases.map (·.1)).zip labels)) fallback)) fs e₁ E Q
    refine Walk.outLookup walk ?_ default ?_
    · intro entry inside
      exact made _ (List.of_mem_zip (Emit.tableInside keys inside)).2
    · intro e₂ walk
      exact next e₂ present os is (by simpa [dispatchCode] using walk)

theorem outArms {done : Label} {arms : List (Label × ι)} (distinct : (arms.map (·.1)).Nodup) (waits : ∀ x ∈ arms, W x.1)
    (made : ∀ x ∈ arms, (x.1, 0) ∈ Λ) (end_ : (done, t.width) ∈ Λ)
    (leaving : ∀ x ∈ arms, Leaving E knows Γ (K x.2) t (expr x.2)) (visible : Γ fs σ)
    (walk : Walk knows mode e₀ e σ A Λ W none)
    (next : ∀ e' B, Each (Arm K done σ) arms B →
      Walk knows mode e₀ e' σ (A ++ B) Λ (fun l => W l ∧ l ∉ arms.map (·.1)) none → Q () e') :
    Out (arms.forM fun x => do
      Emit.mark x.1
      (expr x.2).generateAs t
      Emit.jump done) fs e E Q := by
  induction arms generalizing e A W with
  | nil => exact next e [] rfl (by simpa using walk)
  | cons x arms ih =>
    obtain ⟨apart, distinct⟩ := List.nodup_cons.1 distinct
    simp only [Emit.forMCons, Emit.outBind]
    refine walk.outMark (waits x List.mem_cons_self) (made x List.mem_cons_self) (.inl rfl) ?_
    intro e₁ walk
    refine (leaving x List.mem_cons_self).outAs visible walk ?_
    intro e₂ C shape walk
    rw [Nat.zero_add] at walk
    refine walk.outJump end_ ?_
    intro e₃ walk
    refine ih distinct ?_ (fun y inside => made y (List.mem_cons_of_mem x inside))
      (fun y inside => leaving y (List.mem_cons_of_mem x inside)) walk ?_
    · intro y inside
      exact ⟨waits y (List.mem_cons_of_mem x inside), fun same => apart (List.mem_map.2 ⟨y, inside, same⟩)⟩
    · intro e₄ B pieces walk
      refine next e₄ (.mark x.1 :: C ++ [.op (.jump done)] ++ B) ⟨_, B, ⟨C, shape, rfl⟩, pieces, rfl⟩ ?_
      have bound : ∀ l, (W l ∧ l ≠ x.1) ∧ l ∉ arms.map (·.1) ↔ W l ∧ l ∉ (x :: arms).map (·.1) := by
        intro l
        rw [List.map_cons, List.mem_cons, not_or, and_assoc]
      simpa using walk.forget (List.Subset.refl _) bound

end

theorem valueMakes (selector : Leaving E knows Γ Kx c.type x) (distinct : (items.map key).Nodup) (made : t.Made)
    (leaving : ∀ i ∈ items, Leaving E knows Γ (K i) t (expr i)) (default : Leaving E knows Γ Kd t last) (s : Session) :
    ∃ y, (integers x (items.map fun i => (key i, expr i))).value last s = (.ok y, s) ∧
      Leaving E knows Γ (Switched Kx c key items K Kd) t y := by
  have results : (integers x (items.map fun i => (key i, expr i))).results = items.map expr := by
    rw [Switch.results, List.map_map]
    rfl
  have unified : Ty.unifyAll ((items.map expr ++ [last]).map (·.type)) = .ok t := by
    refine made.unifyAllSame (by simp) ?_
    intro u inside
    obtain ⟨y, member, rfl⟩ := List.mem_map.1 inside
    rcases List.mem_append.1 member with result | final
    · obtain ⟨i, there, rfl⟩ := List.mem_map.1 result
      exact (leaving i there).type
    · exact List.mem_singleton.1 final ▸ default.type
  unfold value
  rw [results, unified]
  refine ⟨_, rfl, ?_⟩
  refine ⟨rfl, emitsOf ?_⟩
  intro fs e visible walk
  have pairs : ∀ labels : List Label, labels.zip (items.map expr) = (labels.zip items).map fun x => (x.1, expr x.2) := by
    intro labels
    rw [List.zip_map_right]
    rfl
  have keys : (items.map fun i => (key i, expr i)).map (·.1) = items.map key := by
    rw [List.map_map]
    rfl
  simp only [Emit.outBind, pairs, Emit.forMMap, List.length_map, Switch.selector]
  refine walk.outLabel 0 ?_
  intro fallback e₁ _ walk
  refine walk.outLabel t.width ?_
  intro done e₂ fresh walk
  refine walk.outLabels 0 items.length ?_
  intro labels e₃ length labelsDistinct apart walk
  refine walk.outPart selector.emits visible ?_
  intro e₄ B shape walk
  refine outDispatch selector.type (keys ▸ distinct) (by rw [List.length_map, length]) ?_ (by simp) walk ?_
  · exact fun l inside => List.mem_append_left _ (List.mem_map_of_mem inside)
  · intro e₅ present os is walk
    have firsts : (labels.zip items).map (·.1) = labels := List.map_fst_zip (Nat.le_of_eq length)
    refine outArms (K := K) (firsts.symm ▸ labelsDistinct) ?_ ?_ (by simp) ?_ visible walk ?_
    · exact fun y inside => .inl (List.of_mem_zip inside).1
    · exact fun y inside => List.mem_append_left _ (List.mem_map_of_mem (List.of_mem_zip inside).1)
    · exact fun y inside => leaving y.2 (List.of_mem_zip inside).2
    · intro e₆ C arms walk
      rw [firsts] at walk
      refine walk.outMark (j := 0) ⟨.inr (.inr (.inl rfl)), fun inside => apart _ inside (.inr (.inl rfl))⟩ (by simp)
        (.inl rfl) ?_
      intro e₇ walk
      refine default.outAs visible walk ?_
      intro e₈ D otherwise walk
      rw [Nat.zero_add] at walk
      refine walk.outMark ⟨⟨.inr (.inl rfl), fun inside => apart _ inside (.inl rfl)⟩, fun same => fresh (.inl same)⟩
        (by simp) (.inr rfl) ?_
      intro e₉ walk
      rw [keys] at walk
      refine walk.finished ⟨B, present, os, fallback, done, labels, C, D, shape, is, length, arms, otherwise, rfl⟩
        (by simp) rfl ?_
      rintro l ⟨⟨⟨inside | rfl | rfl | none, other⟩, notFallback⟩, notDone⟩
      · exact other inside
      · exact notDone rfl
      · exact notFallback rfl
      · exact none

def ofIntegers (selector : Expr) (cases : List (Int32 × Expr)) (default : Expr) : Build Expr := do
  let start ← integer selector
  let switch ← cases.foldlM (fun s c => s.addInteger c.1 c.2) start
  switch.value default

theorem addAll {cases before : List (Int32 × Expr)} (distinct : ((before ++ cases).map (·.1)).Nodup) :
    cases.foldlM (fun s c => s.addInteger c.1 c.2) (integers x before) = pure (.integers x (before ++ cases)) := by
  induction cases generalizing before with
  | nil => rw [List.foldlM_nil, List.append_nil]
  | cons entry cases ih =>
    have new : ¬ before.any (·.1 == entry.1) := by
      rw [List.any_eq_true]
      rintro ⟨y, inside, same⟩
      rw [List.map_append, List.nodup_append] at distinct
      exact distinct.2.2 y.1 (List.mem_map_of_mem inside) entry.1 List.mem_cons_self (beq_iff_eq.1 same)
    have added : (integers x before).addInteger entry.1 entry.2 = pure (.integers x (before ++ [entry])) := if_neg new
    rw [List.foldlM_cons, added, pure_bind, ih (by simpa using distinct), List.append_assoc]
    rfl

theorem ofIntegersIs (whole : c.kind.isInteger) (typed : x.type = c.type) {cases : List (Int32 × Expr)}
    (distinct : (cases.map (·.1)).Nodup) : ofIntegers x cases last = (integers x cases).value last := by
  have started : integer x = pure (.integers x []) := by
    unfold Switch.integer
    rw [typed, Scalar.typePrim]
    exact if_neg (by simpa [Prim.isInteger] using whole)
  rw [ofIntegers, started, pure_bind, addAll (by simpa using distinct), pure_bind, List.nil_append]

end

end Switch

/-! ### Runs -/

namespace Machine.Scene

variable {θ : Scene} {p q : Nat} {s : Stack} {ls : List Value} {w : World} {c : Scalar} {n : Option Int}

theorem performs {os : List Op} {s' : Stack} (carries : Performs os s (.ok s'))
    (spans : θ.method.Spans p (Asm.straight os) q) : θ.Reaches ⟨p, s, ls, w⟩ ⟨q, s', ls, w⟩ := by
  generalize is : Except.ok s' = r at carries
  induction carries generalizing p with
  | done =>
    cases is
    cases spans
    exact .refl _
  | next takes _ ih => exact (next spans.1 (takes _ _ _)).trans (ih spans.2 is)
  | fault _ => contradiction

theorem nullTestGoes {l present : Label} (admits : c.Admits n) (spans : θ.method.Spans p (Asm.nullTest c.type l present) q) :
    θ.Reaches ⟨p, push (c.value n) s, ls, w⟩
      (if n.isNone then ⟨θ.method.position l, s, ls, w⟩ else ⟨q, push (c.value n) s, ls, w⟩) := by
  unfold Asm.nullTest at spans
  rw [Scalar.typeNullable] at spans
  cases nullable : c.isNullable with
  | false =>
    rw [nullable] at spans
    cases spans
    cases n with
    | none => rw [Scalar.nullableIff.2 admits] at nullable; contradiction
    | some n => exact .refl _
  | true =>
    rw [nullable] at spans
    obtain ⟨dup, test, drop, leave, here, rfl⟩ := spans
    have form := Scalar.nullableIff.1 nullable
    obtain ⟨kind, _⟩ := c
    cases form
    cases n with
    | none => exact (next dup rfl).trans ((next test rfl).trans ((next drop rfl).trans (jumps leave rfl)))
    | some n => exact here ▸ (next dup rfl).trans (jumps test rfl)

theorem dispatchGoes {l present : Label} {os : List Op} {cases : List (Int32 × Label)} (admits : c.Admits n)
    (is : castOps? .int32 c.type = some os) (distinct : (cases.map (·.1)).Nodup)
    (spans : θ.method.Spans p (Switch.dispatchCode c cases l present os) q) :
    θ.Reaches ⟨p, push (c.value n) s, ls, w⟩
      ⟨θ.method.position ((n.bind fun n => cases.lookup (.ofInt n)).getD l), s, ls, w⟩ := by
  obtain ⟨cast, before, look, _⟩ := Method.spansAppend.1 spans
  obtain ⟨mid, test, straight⟩ := Method.spansAppend.1 before
  have tested : θ.Reaches ⟨p, push (c.value n) s, ls, w⟩ _ := nullTestGoes admits test
  cases n with
  | none => exact tested
  | some n =>
    refine tested.trans ?_
    have cut : Performs os (push (c.value (some n)) s) (.ok (.int (.ofInt n) :: s)) := by
      have performs := Scalar.cutPerforms (q := .int32) (s := s) admits rfl
      cases is.symm.trans (Scalar.castIs ⟨.int32, .raw⟩ c)
      change Performs _ _ (.ok (.int (.ofInt (Prim.int32.wrap n)) :: s)) at performs
      rwa [Prim.int32OfWrap] at performs
    refine (Scene.performs cut straight).trans (jumps look ?_)
    rw [Option.bind_some, ← Emit.tableLookup distinct, ← caseForIs (Emit.tableAscends distinct)]
    rfl

end Machine.Scene

namespace Switch

section

variable {ι : Type} {items : List ι} {key : ι → Int32} {expr : ι → Expr} {K : ι → Slots → Asm → Prop} {x last : Expr}
  {Kx Kd : Slots → Asm → Prop} {c : Scalar} {t : Ty} {E : Error → Prop} {knows : String → Prop} {Γ : Frames → Slots → Prop}

def chosen (key : ι → Int32) (items : List ι) (n : Option Int) : Option ι :=
  n.bind fun n => items.find? fun i => key i == .ofInt n

theorem chosenLabel (key : ι → Int32) {labels : List Label} (length : labels.length = items.length) (k : Int32) :
    ((items.map key).zip labels).lookup k = none ∧ (items.find? fun i => key i == k) = none ∨
    ∃ l i, ((items.map key).zip labels).lookup k = some l ∧ (items.find? fun i => key i == k) = some i ∧
      (l, i) ∈ labels.zip items := by
  induction items generalizing labels with
  | nil => exact .inl ⟨rfl, rfl⟩
  | cons i items ih =>
    cases labels with
    | nil => contradiction
    | cons l labels =>
      rw [List.map_cons, List.zip_cons_cons, Emit.lookupCons, List.find?_cons]
      by_cases same : k = key i
      · exact .inr ⟨l, i, if_pos same, by simp [same], List.mem_cons_self⟩
      · rw [if_neg same, beq_eq_false_iff_ne.2 (Ne.symm same)]
        refine (ih (Nat.succ.inj length)).imp id ?_
        rintro ⟨l', j, found, is, inside⟩
        exact ⟨l', j, found, is, List.mem_cons_of_mem _ inside⟩

/-- Code that runs the code of a number or null once, and then one of several pieces of code that `pick` allows for what
it left; in any method, whatever is protected there. -/
def Dispatches (Kx : Slots → Asm → Prop) (c : Scalar) (pick : Option Int → Slots → Asm → Prop) (σ : Slots) (X : Asm) :
    Prop :=
  ∃ B, Kx σ B ∧ ∀ n, c.Admits n → ∃ C, pick n σ C ∧
    ∀ (θ : Scene) p q, θ.method.Spans p X q → ∃ mid a b, θ.method.Spans p B mid ∧ θ.method.Spans a C b ∧
      ∀ s ls w, θ.Reaches ⟨mid, push (c.value n) s, ls, w⟩ ⟨a, s, ls, w⟩ ∧ θ.Reaches ⟨b, s, ls, w⟩ ⟨q, s, ls, w⟩

theorem switchedParts {m : Method} {p q : Nat} {B L C D : Asm} {fallback done : Label}
    (spans : m.Spans p (B ++ L ++ C ++ (.mark fallback :: D ++ [.mark done])) q) :
    ∃ mid d e, m.Spans p B mid ∧ m.Spans mid L d ∧ m.Spans d C e ∧ m.position fallback = e ∧ m.Spans e D q ∧
      m.position done = q := by
  obtain ⟨e, before, at_, rest⟩ := Method.spansAppend.1 spans
  obtain ⟨f, last, end_, rfl⟩ := Method.spansAppend.1 rest
  obtain ⟨d, before, results⟩ := Method.spansAppend.1 before
  obtain ⟨mid, first, lookup⟩ := Method.spansAppend.1 before
  exact ⟨mid, d, e, first, lookup, results, at_, last, end_⟩

theorem switchedDispatches {σ : Slots} {X : Asm} (distinct : (items.map key).Nodup)
    (switched : Switched Kx c key items K Kd σ X) :
    Dispatches Kx c (fun n => (chosen key items n).elim Kd K) σ X := by
  obtain ⟨B, present, os, fallback, done, labels, C, D, shape, is, length, arms, otherwise, rfl⟩ := switched
  have keys : (((items.map key).zip labels).map (·.1)).Nodup := by
    rwa [List.map_fst_zip (Nat.le_of_eq (by rw [List.length_map, length]))]
  refine ⟨B, shape, fun n admits => ?_⟩
  dsimp only
  have either : (n.bind fun n => ((items.map key).zip labels).lookup (.ofInt n)) = none ∧ chosen key items n = none ∨
      ∃ l i, (n.bind fun n => ((items.map key).zip labels).lookup (.ofInt n)) = some l ∧ chosen key items n = some i ∧
        (l, i) ∈ labels.zip items := by
    cases n with
    | none => exact .inl ⟨rfl, rfl⟩
    | some n => exact chosenLabel key length _
  rcases either with ⟨missing, none⟩ | ⟨l, i, found, picked, inside⟩
  · rw [none]
    refine ⟨D, otherwise, ?_⟩
    intro θ p q spans
    obtain ⟨mid, d, e, first, dispatch, _, at_, last, _⟩ := switchedParts spans
    refine ⟨mid, e, q, first, last, fun s ls w => ⟨?_, .refl _⟩⟩
    have goes : θ.Reaches ⟨mid, push (c.value n) s, ls, w⟩ _ := Scene.dispatchGoes admits is keys dispatch
    rwa [missing, Option.getD_none, at_] at goes
  · rw [picked]
    obtain ⟨P, _, S, ⟨R, result, rfl⟩, rfl⟩ := eachInside arms inside
    refine ⟨R, result, ?_⟩
    intro θ p q spans
    obtain ⟨mid, d, e, first, dispatch, results, _, _, end_⟩ := switchedParts spans
    obtain ⟨f, front, _⟩ := Method.spansAppend.1 results
    obtain ⟨a, _, at_, arm⟩ := Method.spansAppend.1 front
    obtain ⟨b, body, leave, _⟩ := Method.spansAppend.1 arm
    refine ⟨mid, a, b, first, body, fun s ls w => ⟨?_, ?_⟩⟩
    · have goes : θ.Reaches ⟨mid, push (c.value n) s, ls, w⟩ _ := Scene.dispatchGoes admits is keys dispatch
      rwa [found, Option.getD_some, at_] at goes
    · rw [← end_]
      exact Scene.jumps leave rfl

/-- A switch over a number, raw, in a box or missing, takes the case whose key has the number's low 32 bits, and the default
where there is none or the number is null. A number in the range of the keys takes the case of its own value. -/
theorem integersMatchLowBits (whole : c.kind.isInteger) (selector : Leaving E knows Γ Kx c.type x)
    (distinct : (items.map key).Nodup) (made : t.Made) (leaving : ∀ i ∈ items, Leaving E knows Γ (K i) t (expr i))
    (default : Leaving E knows Γ Kd t last) :
    (∀ s, ∃ y, ofIntegers x (items.map fun i => (key i, expr i)) last s = (.ok y, s) ∧
      Leaving E knows Γ (Dispatches Kx c fun n => (chosen key items n).elim Kd K) t y) ∧
    ∀ n, Prim.int32.Holds n → chosen key items (some n) = items.find? fun i => (key i).toInt == n := by
  constructor
  · intro s
    obtain ⟨y, is, leaves⟩ := valueMakes selector distinct made leaving default s
    have keys : ((items.map fun i => (key i, expr i)).map (·.1)).Nodup := by
      rw [List.map_map]
      exact distinct
    refine ⟨y, (congrFun (ofIntegersIs whole selector.type keys) s).trans is, leaves.type, ?_⟩
    exact leaves.emits.mono fun σ X switched => switchedDispatches distinct switched
  · intro n holds
    have same : ∀ k : Int32, (k == .ofInt n) = (k.toInt == n) := by
      intro k
      rw [Bool.eq_iff_iff, beq_iff_eq, beq_iff_eq, ← Int32.toInt_inj, Int32.toInt_ofInt_of_le holds.1 holds.2]
    rw [chosen, Option.bind_some]
    exact congrArg (List.find? · items) (funext fun i => same (key i))

end

/-- A number that is 7 in its low 32 bits takes the case of 7. -/
theorem farTakesSeven :
    let far := Expr.literal (.long (.ofInt (2 ^ 32 + 7))) .int64
    let one := Expr.literal (.int 1) .int32
    let zero := Expr.literal (.int 0) .int32
    let s := Session.new .default .empty
    ∃ y K, ofIntegers far [(7, one)] zero s = (.ok y, s) ∧
      Leaving (fun _ => False) (fun _ => False) (fun _ _ => True) K .int32 y ∧
      ∀ σ X, K σ X → ∀ (θ : Scene) p q, θ.method.Spans p X q → ∃ mid a b,
        θ.method.Spans p [.op (.const (.long (.ofInt (2 ^ 32 + 7))))] mid ∧ θ.method.Spans a [.op (.const (.int 1))] b ∧
        ∀ s ls w, θ.Reaches ⟨mid, push (.long (.ofInt (2 ^ 32 + 7))) s, ls, w⟩ ⟨a, s, ls, w⟩ ∧
          θ.Reaches ⟨b, s, ls, w⟩ ⟨q, s, ls, w⟩ := by
  intro far one zero s
  have selector : Leaving (fun _ => False) (fun _ => False) (fun _ _ => True)
      (Single (.const (.long (.ofInt (2 ^ 32 + 7))))) .int64 far := ⟨rfl, (literalWrites .prim rfl).emits⟩
  have result (n : Int32) : Leaving (fun _ => False) (fun _ => False) (fun _ _ => True)
      (Single (.const (.int n))) .int32 (Expr.literal (.int n) .int32) := ⟨rfl, (literalWrites .prim rfl).emits⟩
  have leaving : ∀ i ∈ [((7 : Int32), one)], Leaving (fun _ => False) (fun _ => False) (fun _ _ => True)
      (Single (.const (.int 1))) .int32 i.2 := by
    intro i inside
    exact List.mem_singleton.1 inside ▸ result 1
  have distinct : ([((7 : Int32), one)].map (·.1)).Nodup := List.pairwise_singleton _ _
  obtain ⟨builds, -⟩ := integersMatchLowBits (c := ⟨.int64, .raw⟩) rfl selector distinct .prim leaving (result 0)
  obtain ⟨y, is, leaving⟩ := builds s
  refine ⟨y, _, is, leaving, ?_⟩
  rintro σ X ⟨_, rfl, dispatches⟩ θ p q spans
  obtain ⟨_, rfl, runs⟩ := dispatches (some (2 ^ 32 + 7)) (by simp [Scalar.Admits, Prim.Holds])
  exact runs θ p q spans

end Switch

end QueryMachine
