import QueryMachine.Proofs.Code.Switch
import QueryMachine.Proofs.Code.Writing
import QueryMachine.Proofs.Machine.Course

/-! The accessors that a struct type gets. Each finds the field that a name stands for by a switch over the names in
upper case, and goes to the section of the field or raises that there is none. -/
namespace QueryMachine

open Emit (Out)

namespace Struct

/-! ### Code -/

def bucketCode (held default : Nat) (entries : List (String × Label)) : Asm :=
  (entries.flatMap fun x => [.op (.const (.string x.1)), .op (.load held), .op (.native .stringEquals),
    .op (.ifZero .ne x.2)]) ++ [.op (.jump default)]

def hashes (cases : List (String × Label)) (labels : List Label) : List (Int32 × Label) :=
  ((Emit.buckets cases).zip labels).map fun x => (x.1.1, x.2)

def switchCode (cases : List (String × Label)) (default held nonNull : Nat) (labels : List Label) : Asm :=
  [.op (.dup 1), .op (.ifNonNull nonNull), .op (.pop 1), .op (.jump default), .mark nonNull, .op (.native .stringUpper),
    .op (.dup 1), .op (.store held), .op (.native .stringHash), .op (.lookup (hashes cases labels) default)] ++
  ((Emit.buckets cases).zip labels).flatMap fun x => .mark x.2 :: bucketCode held default x.1.2

def casesOf (fields : List (String × Ty)) : List (String × Label) :=
  (fields.zip (List.range' 1 fields.length)).map fun x => (x.1.1, x.2)

def bucketLabels (fields : List (String × Ty)) : List Label :=
  List.range' (fields.length + 2) (Emit.buckets (casesOf fields)).length

def sectionsCode (fields : List (String × Ty)) (found : String × Ty → Asm) : Asm :=
  (fields.zip (List.range' 1 fields.length)).flatMap fun x => .mark x.2 :: found x.1

def dispatchCode (fields : List (String × Ty)) (slot held : Nat) (found : String × Ty → Asm) : Asm :=
  [.op (.load slot)] ++ switchCode (casesOf fields) 0 held (fields.length + 1) (bucketLabels fields) ++
    sectionsCode fields found ++ [.mark 0, .op (.load slot), .op (.native .propertyNotFound), .op .throw]

def getCode (cls : String) (self : Nat) (field : String × Ty) : Asm :=
  [.op (.load self), .op (.getField (fieldRef cls field))] ++ Asm.box field.2 ++ [.op (.ret 1)]

theorem bucketLabelsNone (held default : Nat) (entries : List (String × Label)) :
    (bucketCode held default entries).labels = [] := by
  unfold bucketCode
  induction entries with
  | nil => rfl
  | cons x entries ih => simpa using ih

theorem flatLabels {ι : Type} {items : List (ι × Label)} {f : ι → Asm} (none : ∀ i, (f i).labels = []) :
    Asm.labels (items.flatMap fun x => .mark x.2 :: f x.1) = items.map (·.2) := by
  induction items with
  | nil => rfl
  | cons x items ih => simp [none, ih]

theorem dispatchDistinct (fields : List (String × Ty)) (slot held : Nat) {found : String × Ty → Asm}
    (none : ∀ f, (found f).labels = []) : (dispatchCode fields slot held found).labels.Nodup := by
  have buckets : ((Emit.buckets (casesOf fields)).zip (bucketLabels fields)).map (·.2) = bucketLabels fields :=
    List.map_snd_zip (by simp [bucketLabels])
  have sections : (fields.zip (List.range' 1 fields.length)).map (·.2) = List.range' 1 fields.length :=
    List.map_snd_zip (by simp)
  have labels : (dispatchCode fields slot held found).labels =
      (fields.length + 1) :: bucketLabels fields ++ List.range' 1 fields.length ++ [0] := by
    unfold dispatchCode switchCode sectionsCode
    simp only [Asm.labelsAppend, Asm.labelsOp, Asm.labelsMark, Asm.labelsNil, flatLabels none, sections,
      flatLabels (f := fun y : Int32 × List (String × Label) => bucketCode held 0 y.2) fun y => bucketLabelsNone held 0 y.2,
      buckets]
    rfl
  rw [labels]
  have low : ∀ l : Nat, l ∈ List.range' 1 fields.length → 0 < l ∧ l ≤ fields.length := by
    intro l inside
    rw [List.mem_range'_1] at inside
    omega
  have high : ∀ l : Nat, l ∈ bucketLabels fields → fields.length + 2 ≤ l := by
    intro l inside
    exact (List.mem_range'_1.1 inside).1
  refine List.nodup_append.2 ⟨List.nodup_append.2 ⟨List.nodup_cons.2 ⟨?_, List.nodup_range'⟩, List.nodup_range', ?_⟩,
    List.pairwise_singleton _ _, ?_⟩
  · intro inside
    have := high _ inside
    omega
  · intro a first b second same
    subst same
    have := (low _ second).2
    rcases List.mem_cons.1 first with rfl | inside
    · omega
    · have := high _ inside
      omega
  · intro a inside b last same
    rw [List.mem_singleton.1 last] at same
    subst same
    rcases List.mem_append.1 inside with first | second
    · rcases List.mem_cons.1 first with is | inside
      · contradiction
      · have := high _ inside
        omega
    · exact Nat.lt_irrefl 0 (low _ second).1

theorem getDistinct (cls : String) (fields : List (String × Ty)) (self slot held : Nat) :
    (dispatchCode fields slot held (getCode cls self)).labels.Nodup := by
  refine dispatchDistinct fields slot held ?_
  intro f
  unfold getCode
  cases type : f.2 <;> simp [Asm.box]

variable {E : Error → Prop} {fs : Frames} {e : Emitter} {σ : Slots} {A : Asm} {n : Nat} {Q : Unit → Emitter → Prop}

theorem outSwitch {cases : List (String × Label)} {default : Label} (wrote : e.Wrote σ A n)
    (next : ∀ e' k, e'.Wrote (σ.temp 1)
      (A ++ switchCode cases default σ.next n (List.range' (n + 1) (Emit.buckets cases).length)) k → n ≤ k → Q () e') :
    Out (Emit.stringSwitch cases default) fs e E Q := by
  unfold Emit.stringSwitch
  simp only [Emit.outBind]
  refine wrote.outTemp ?_
  intro e₁ wrote
  refine wrote.outLabel ?_
  intro e₂ wrote
  refine wrote.outOps ?_
  intro e₃ wrote
  refine wrote.outMark (Nat.lt_succ_self n) ?_
  intro e₄ wrote
  refine wrote.outOps ?_
  intro e₅ wrote
  refine wrote.outLabels (Emit.buckets cases).length ?_
  intro e₆ wrote
  refine wrote.outOp ?_
  intro e₇ wrote
  change Out (((Emit.buckets cases).zip (List.range' (n + 1) (Emit.buckets cases).length)).forM fun x => do
    Emit.mark x.2
    x.1.2.forM fun c => Emit.ops [.const (.string c.1), .load σ.next, .native .stringEquals, .ifZero .ne c.2]
    Emit.jump default) fs e₇ E Q
  refine Emitter.Wrote.outForM (g := fun x => .mark x.2 :: bucketCode σ.next default x.1.2) ?_ wrote ?_
  · intro x inside e A Q wrote next
    have member := (List.of_mem_zip inside).2
    rw [List.mem_range'_1] at member
    simp only [Emit.outBind]
    refine wrote.outMark (by omega) ?_
    intro e₁ wrote
    refine Emitter.Wrote.outForM (g := fun y : String × Label => [.op (.const (.string y.1)), .op (.load σ.next),
      .op (.native .stringEquals), .op (.ifZero .ne y.2)]) (fun y _ e A Q wrote next => wrote.outOps next) wrote ?_
    intro e₂ wrote
    refine Emitter.Wrote.outOp wrote ?_
    intro e₃ wrote
    exact next e₃ (by simpa [bucketCode] using wrote)
  · intro e₈ wrote
    exact next e₈ _ (by simpa [switchCode, hashes] using wrote) (by omega)

theorem outAccess {fields : List (String × Ty)} {name : Local} {slot : Nat} {found : String × Ty → Emit Unit}
    {code : String × Ty → Asm} (holds : σ.find? name = some slot)
    (each : ∀ f ∈ fields, ∀ e A n (Q : Unit → Emitter → Prop), e.Wrote (σ.temp 1) A n →
      (∀ e', e'.Wrote (σ.temp 1) (A ++ code f) n → Q () e') → Out (found f) fs e E Q)
    (wrote : e.Wrote σ [] 0)
    (next : ∀ e' k, e'.Wrote (σ.temp 1) (dispatchCode fields slot σ.next code) k → Q () e') :
    Out (dispatch name fields found) fs e E Q := by
  unfold dispatch
  simp only [Emit.outBind]
  refine wrote.outSlot holds ?_
  refine wrote.outLabel ?_
  intro e₁ wrote
  refine wrote.outLabels fields.length ?_
  intro e₂ wrote
  refine wrote.outOp ?_
  intro e₃ wrote
  refine outSwitch wrote ?_
  intro e₄ k wrote more
  change Out ((fields.zip (List.range' (0 + 1) fields.length)).forM fun x => do
    Emit.mark x.2
    found x.1) fs e₄ E _
  refine Emitter.Wrote.outForM (g := fun x => .mark x.2 :: code x.1) ?_ wrote ?_
  · intro x inside e A Q wrote next
    obtain ⟨member, label⟩ := List.of_mem_zip inside
    rw [List.mem_range'_1] at label
    rw [Emit.outBind]
    refine wrote.outMark (by omega) ?_
    intro e₁ wrote
    refine each x.1 member e₁ _ k _ wrote ?_
    intro e₂ wrote
    exact next e₂ (by simpa using wrote)
  · intro e₅ wrote
    refine wrote.outMark (by omega) ?_
    intro e₆ wrote
    refine wrote.outOps ?_
    intro e₇ wrote
    refine next e₇ k ?_
    simpa [dispatchCode, sectionsCode, bucketLabels, casesOf, Nat.add_comm 1, Nat.add_right_comm] using wrote

theorem outGetter {cls : String} {fields : List (String × Ty)} {this name : Local} {self slot : Nat}
    (holdsThis : σ.find? this = some self) (holdsName : σ.find? name = some slot) (wrote : e.Wrote σ [] 0) :
    Out (getterBody cls fields this name) fs e E fun _ e' =>
      ∃ k, e'.Wrote (σ.temp 1) (dispatchCode fields slot σ.next (getCode cls self)) k := by
  unfold getterBody
  rw [Emit.outBind]
  refine wrote.outSlot holdsThis ?_
  refine outAccess holdsName ?_ wrote fun e' k wrote => ⟨k, wrote⟩
  intro f _ e A n Q wrote next
  simp only [Emit.outBind]
  refine wrote.outOps ?_
  intro e₁ wrote
  refine wrote.outBox ?_
  intro e₂ wrote
  refine wrote.outOp ?_
  intro e₃ wrote
  exact next e₃ (by simpa [getCode] using wrote)

end Struct

end QueryMachine
