import QueryMachine.Build.Record
import QueryMachine.Proofs.Build.Access
import QueryMachine.Proofs.Expr.Frame

/-! Records: their fields are values that were built before, so the frame of the record hides none of their
locals. -/
namespace QueryMachine

open Emit (Out)

/-! ### Slots of a frame -/

theorem layoutLow {ts : List Ty} {next i s : Nat} (is : (Emit.layout next ts).1[i]? = some s) : next ≤ s := by
  induction ts generalizing next i with
  | nil => simp [Emit.layout] at is
  | cons t ts ih =>
    cases i with
    | zero =>
      cases is
      exact Nat.le_refl _
    | succ i =>
      have later : (Emit.layout (next + max t.width 1) ts).1[i]? = some s := is
      exact Nat.le_trans (Nat.le_add_right next _) (ih later)

namespace Slots

variable {σ τ : Slots} {ts : List Ty} {l l' : Local} {s s' : Nat}

theorem enterFind (ts : List Ty) (l : Local) (holds : (σ.enter l.frame ts).Holds l s)
    (own : l.index < ts.length) : (Emit.layout σ.next ts).1[l.index]? = some s := by
  have found := holds.1
  simp only [find?, enter, List.findSome?_cons, if_true] at found
  obtain ⟨t, is⟩ : ∃ t, ts[l.index]? = some t := ⟨_, List.getElem?_eq_getElem own⟩
  obtain ⟨s', here, _⟩ := layoutGet is σ.next
  rw [here] at found
  cases found
  exact here

structure Later (σ τ : Slots) : Prop where
  active : τ.active = σ.active
  next : σ.next ≤ τ.next

theorem Later.refl (σ : Slots) : σ.Later σ := ⟨rfl, Nat.le_refl _⟩

theorem Later.holds (later : σ.Later τ) (holds : σ.Holds l s) : τ.Holds l s := by
  refine ⟨?_, Nat.le_trans holds.2 later.next⟩
  unfold find?
  rw [later.active]
  exact holds.1

end Slots

def Framed {κ : Type} (made : Frames) (L : κ → Slots → Asm → Prop) (pre : List κ) (object : Local) (first : Op)
    (R : Nat → Slots → Asm → Prop) (σ : Slots) (X : Asm) : Prop :=
  ∃ ts s P B, (∀ l, made.Has l → l.frame = object.frame → l.index < ts.length) ∧
    (σ.enter object.frame ts).Holds object s ∧
    Each (fun i => L i (σ.enter object.frame ts)) pre P ∧ R s (σ.enter object.frame ts) B ∧
    X = P ++ [.op first, .op (.store s)] ++ B ++ [.op (.load s)]

theorem framedEmits {κ : Type} {E : Error → Prop} {knows : String → Prop} {Γ Γ' : Frames → Slots → Prop} {pre : List κ}
    {seq : κ → Seq} {L : κ → Slots → Asm → Prop} {object : Local} {first : Op} {body : Nat → Emit Unit}
    {R : Nat → Slots → Asm → Prop} {type : Ty} {made : Frames} (narrow : type.width = 1) (has : made.Has object)
    (enters : ∀ fs σ, Γ fs σ → made.Grows fs ∧
      Γ' fs (σ.enter object.frame ((fs.frame object.frame).locals.map (·.2))))
    (before_ : ∀ i ∈ pre, Emits E knows Γ' 0 (L i) (seq i))
    (fits : ∀ locals (Λ : List (Label × Nat)), Fits knows none locals Λ 0 first) (falls : fallDepth first 0 = some 1)
    (builds : ∀ fs e₀ e σ A (Λ : List (Label × Nat)) (W : Label → Prop) s (Q : Unit → Emitter → Prop), Γ' fs σ →
      σ.Holds object s → Walk knows none e₀ e σ A Λ W (some 0) →
      (∀ e' τ B, σ.Later τ → R s σ B → Walk knows none e₀ e' τ (A ++ B) Λ W (some 0) → Q () e') →
      Out (body s) fs e E Q) :
    Emits E knows Γ type.width (Framed made L pre object first R) (do
      Emit.enterFrame object.frame
      (pre.map seq).forM id
      let slot ← Emit.slotOf object
      Emit.ops [first, .store slot]
      body slot
      Emit.op (.load slot)
      Emit.exitFrame object.frame) := by
  refine emitsOf ?_
  intro fs e visible walk
  obtain ⟨grows, inside⟩ := enters fs e.slots visible
  obtain ⟨s, holds, _⟩ := enteredHolds (σ := e.slots) (has.later grows)
  have own : ∀ l, made.Has l → l.frame = object.frame → l.index < ((fs.frame object.frame).locals.map (·.2)).length := by
    intro l there in_
    rw [List.length_map, ← in_]
    exact (List.getElem?_eq_some_iff.1 (there.later grows).here).1
  simp only [Emit.outBind, Emit.forMMap, Emit.opsCons, Emit.opsNil, Emit.outPure]
  refine walk.outEnter ?_
  intro e₁ walk
  refine Walk.outForM (R := fun i => L i (e.slots.enter object.frame ((fs.frame object.frame).locals.map (·.2)))) ?_ walk ?_
  · intro i member e' A Q walk next
    refine walk.outPart (before_ i member) inside ?_
    intro e'' B shape walk
    exact next e'' B shape walk
  intro e₂ P pieces walk
  refine walk.outSlot holds ?_
  refine walk.outOp (fits _ _) ?_
  intro e₃ walk
  rw [falls] at walk
  refine Walk.outStoreSlot (k := 0) walk holds ?_
  intro e₄ walk
  refine builds fs _ e₄ _ _ _ _ s _ inside holds walk ?_
  intro e₅ τ B later shape walk
  refine walk.outLoadSlot (later.holds holds) ?_
  intro e₆ walk
  refine walk.outExit (by rw [later.active]; rfl) (Nat.le_trans (layoutGrows _ _) later.next) ?_
  intro e₇ walk
  exact walk.finished ⟨_, s, P, B, own, holds, pieces, shape, rfl⟩ (by simp) narrow.symm fun _ h => h

namespace RecordDraft

open Conversion
open Verify (after)

variable {E : Error → Prop} {knows : String → Prop} {K : Slots → Asm → Prop} {root : FrameId} {scope : List Local}
  {made : Frames}

def skipCode (t : Ty) (width : Nat) (next put : Label) : Asm :=
  if t.isNullable then
    [.op (.dup 1), .op (.ifNonNull put), .op (.pop width), .op (.jump next), .mark put]
  else []

section

variable {mode : Option Nat} {fs : Frames} {e₀ e : Emitter} {σ : Slots} {A : Asm} {Λ : List (Label × Nat)}
  {W : Label → Prop} {k : Nat} {Q : Unit → Emitter → Prop}

theorem outSkipNull {t : Ty} {width : Nat} {next : Label} (positive : 1 ≤ width)
    (walk : Walk knows mode e₀ e σ A Λ W (some (k + width))) (made : (next, k) ∈ Λ)
    (after_ : ∀ e' put, Walk knows mode e₀ e' σ (A ++ skipCode t width next put) Λ W (some (k + width)) → Q () e') :
    Out (skipNull t width next) fs e E Q := by
  unfold skipNull
  unfold skipCode at after_
  cases nullable : t.isNullable with
  | false =>
    simp only [nullable, Bool.false_eq_true, if_false, List.append_nil] at after_ ⊢
    exact after_ e 0 walk
  | true =>
    simp only [nullable, if_true, Emit.outBind, Emit.opsCons, Emit.opsNil, Emit.outPure] at after_ ⊢
    refine walk.outLabel (k + width) ?_
    intro put e₁ fresh walk
    refine walk.outPlain ⟨rfl, rfl, rfl, rfl⟩ (Nat.le_trans positive (Nat.le_add_left width k)) ?_
    intro e₂ walk
    have doubled : after (.dup 1) (k + width) = k + width + 1 := by
      simp only [after, Op.effect]
      omega
    rw [doubled] at walk
    refine walk.outIfNonNull List.mem_cons_self ?_
    intro e₃ walk
    refine walk.outPlain ⟨rfl, rfl, rfl, rfl⟩ (Nat.le_add_left width k) ?_
    intro e₄ walk
    have dropped : after (.pop width) (k + width) = k := by simp [after, Op.effect]
    rw [dropped] at walk
    refine walk.outJump (List.mem_cons_of_mem _ made) ?_
    intro e₅ walk
    refine walk.outMark (.inl rfl) List.mem_cons_self (.inl rfl) ?_
    intro e₆ walk
    exact after_ e₆ put (by simpa using walk.closed fresh)

def PutsField (K : Slots → Asm → Prop) (cls : String) (layout : List (String × Ty)) (object : Nat) (name : String)
    (source : Ty) (σ : Slots) (X : Asm) : Prop :=
  match position? layout name >>= fun i => layout[i]? with
  | none => X = []
  | some field => ∃ B next put os, K σ B ∧ castOps? field.2 source = some os ∧
    X = [.op (.load object)] ++ B ++ skipCode source 2 next put ++ Asm.straight os ++
      [.op (.putField (Struct.fieldRef cls field)), .mark next]

theorem outPutField {Γ : Frames → Slots → Prop} {cls name : String} {layout : List (String × Ty)} {value : Expr}
    {object : Local} {s : Nat} (sized : value.type ≠ .void) (emits : Emits E knows Γ value.type.width K value.generate)
    (visible : Γ fs σ) (known : knows cls)
    (holds : σ.Holds object s)
    (may : ∀ field, (position? layout name >>= fun j => layout[j]?) = some field → castOps? field.2 value.type = none →
      ∀ a b, E (.of (.incompatibleCast a b)))
    (walk : Walk knows mode e₀ e σ A Λ W (some 0))
    (next : ∀ e' B, PutsField K cls layout s name value.type σ B → Walk knows mode e₀ e' σ (A ++ B) Λ W (some 0) →
      Q () e') :
    Out (putField cls layout s name value) fs e E Q := by
  unfold putField
  unfold PutsField at next
  cases found : position? layout name >>= fun i => layout[i]? with
  | none =>
    simp only [found] at next
    exact next e [] rfl (by simpa using walk)
  | some field =>
    simp only [found, Emit.outBind] at next ⊢
    obtain ⟨i, _, at_⟩ := Option.bind_eq_some_iff.1 found
    refine walk.outLabel 0 ?_
    intro skip e₁ fresh walk
    refine walk.outLoadSlot holds ?_
    intro e₂ walk
    refine walk.outPart emits visible ?_
    intro e₃ B shape walk
    have skipped : ∀ {Q}, (∀ e' put, Walk knows mode e₀ e' σ (A ++ [.op (.load s)] ++ B ++ skipCode value.type 2 skip put)
        ((skip, 0) :: Λ) (fun x => x = skip ∨ W x) (some (1 + value.type.width)) → Q () e') →
        Out (skipNull value.type 2 skip) fs e₃ E Q := by
      intro Q after_
      cases nullable : value.type.isNullable with
      | true =>
        rw [Ty.nullableWidth nullable] at walk after_
        exact outSkipNull (k := 0) (Nat.le_succ 1) walk List.mem_cons_self after_
      | false =>
        simp only [skipNull, nullable, Bool.false_eq_true, if_false]
        exact after_ e₃ 0 (by simpa [skipCode, nullable] using walk)
    refine skipped ?_
    intro e₄ put walk
    refine walk.outCast sized (may field found) ?_
    intro e₅ os is walk
    refine walk.outMember rfl rfl rfl rfl known (Nat.le_refl _) ?_
    intro e₆ walk
    have emptied : after (.putField (Struct.fieldRef cls field)) (1 + field.2.width) = 0 := by
      simp [after, Op.effect, Struct.fieldRef, Ty.width]
    rw [emptied] at walk
    refine walk.outMark (.inl rfl) List.mem_cons_self (.inr rfl) ?_
    intro e₇ walk
    exact next e₇ _ ⟨B, skip, put, os, shape, is, rfl⟩ (by simpa using walk.closed fresh)

def PutsEntry (K : Slots → Asm → Prop) (record : Nat) (name : String) (source : Ty) (σ : Slots) (X : Asm) : Prop :=
  ∃ B next put, K σ B ∧ X = [.op (.load record), .op (.const (.string name))] ++ B ++ Asm.box source ++
    skipCode source 3 next put ++ [.op (.native .recordPut), .mark next]

def entryCode (record : Local) (name : String) (value : Expr) : Emit Unit := do
  let next ← Emit.newLabel
  Emit.op (.load (← Emit.slotOf record))
  Emit.op (.const (.string name))
  value.generate
  Emit.box value.type
  skipNull value.type 3 next
  Emit.op (.native .recordPut)
  Emit.mark next

theorem outPutEntry {Γ : Frames → Slots → Prop} {name : String} {value : Expr} {record : Local} {s : Nat}
    (sized : value.type ≠ .void) (emits : Emits E knows Γ value.type.width K value.generate) (visible : Γ fs σ)
    (holds : σ.Holds record s)
    (walk : Walk knows mode e₀ e σ A Λ W (some 0))
    (next : ∀ e' B, PutsEntry K s name value.type σ B → Walk knows mode e₀ e' σ (A ++ B) Λ W (some 0) → Q () e') :
    Out (entryCode record name value) fs e E Q := by
  unfold entryCode
  simp only [Emit.outBind]
  refine walk.outLabel 0 ?_
  intro skip e₁ fresh walk
  refine walk.outSlot holds ?_
  refine walk.outLoadSlot holds ?_
  intro e₂ walk
  refine walk.outPlain ⟨rfl, rfl, rfl, rfl⟩ (Nat.zero_le _) ?_
  intro e₃ walk
  refine walk.outPart emits visible ?_
  intro e₄ B shape walk
  refine walk.outBox sized ?_
  intro e₅ walk
  refine outSkipNull (k := 0) (Nat.le_add_left 1 2) walk List.mem_cons_self ?_
  intro e₆ put walk
  refine walk.outPlain ⟨rfl, rfl, rfl, rfl⟩ (Nat.le_refl _) ?_
  intro e₇ walk
  refine walk.outMark (.inl rfl) List.mem_cons_self (.inr rfl) ?_
  intro e₈ walk
  exact next e₈ _ ⟨B, skip, put, shape, rfl⟩ (by simpa using walk.closed fresh)

end

section

variable {ι : Type} {items : List ι} {name : ι → String} {expr : ι → Expr} {K : ι → Slots → Asm → Prop} {object : Local}

variable {κ : Type} {pre : List κ} {seq : κ → Seq} {L : κ → Slots → Asm → Prop} {Γ Γ' : Frames → Slots → Prop}

def PutsFields (K : ι → Slots → Asm → Prop) (items : List ι) (name : ι → String) (expr : ι → Expr) (cls : String)
    (layout : List (String × Ty)) (s : Nat) (σ : Slots) (B : Asm) : Prop :=
  Each (fun i => PutsField (K i) cls layout s (name i) (expr i).type σ) items B

theorem closedEmits {cls : String} {layout : List (String × Ty)} {type : Ty} (narrow : type.width = 1)
    (has : made.Has object) (enters : ∀ fs σ, Γ fs σ → made.Grows fs ∧
      Γ' fs (σ.enter object.frame ((fs.frame object.frame).locals.map (·.2))))
    (before_ : ∀ i ∈ pre, Emits E knows Γ' 0 (L i) (seq i))
    (values : ∀ i ∈ items, (expr i).type ≠ .void ∧ Emits E knows Γ' (expr i).type.width (K i) (expr i).generate)
    (known : knows cls)
    (may : ∀ i ∈ items, ∀ field, (position? layout (name i) >>= fun j => layout[j]?) = some field →
      castOps? field.2 (expr i).type = none →
      ∀ a b, E (.of (.incompatibleCast a b))) :
    Emits E knows Γ type.width (Framed made L pre object (.new cls) (PutsFields K items name expr cls layout)) (do
      Emit.enterFrame object.frame
      (pre.map seq).forM id
      let slot ← Emit.slotOf object
      Emit.ops [.new cls, .store slot]
      (items.map fun i => (name i, expr i)).forM fun (name, value) => putField cls layout slot name value
      Emit.op (.load slot)
      Emit.exitFrame object.frame) := by
  refine framedEmits narrow has enters before_ ?_ rfl ?_
  · intro locals Λ
    refine ⟨Nat.zero_le _, nofun, nofun, nofun, ?_⟩
    intro name is
    cases is
    exact known
  · intro fs e₀ e σ A Λ W s Q visible holds walk next
    rw [Emit.forMMap]
    refine Walk.outForM (R := fun i => PutsField (K i) cls layout s (name i) (expr i).type σ) ?_ walk ?_
    · intro i inside e' A Q walk next
      exact outPutField (values i inside).1 (values i inside).2 visible known holds (may i inside) walk next
    · intro e' B pieces walk
      exact next e' σ B (.refl σ) pieces walk

def Closed (K : ι → Slots → Asm → Prop) (items : List ι) (name : ι → String) (expr : ι → Expr) (object : Local)
    (cls : String) (layout : List (String × Ty)) (σ : Slots) (X : Asm) : Prop :=
  ∃ ts s B, (σ.enter object.frame ts).Holds object s ∧ σ.next ≤ s ∧
    Each (fun i => PutsField (K i) cls layout s (name i) (expr i).type (σ.enter object.frame ts)) items B ∧
    X = [.op (.new cls), .op (.store s)] ++ B ++ [.op (.load s)]

theorem closedWrites {cls : String} {layout : List (String × Ty)} {type : Ty}
    (writes : ∀ i ∈ items, (expr i).Writes E knows (Visible root scope made) (K i)) (has : made.Has object)
    (other : root ≠ object.frame) (others : ∀ l ∈ scope, l.frame ≠ object.frame) (known : knows cls)
    (regular : type.Regular knows) (reference : type.isPrimitive = false)
    (may : ∀ i ∈ items, ∀ field, (position? layout (name i) >>= fun j => layout[j]?) = some field →
      castOps? field.2 (expr i).type = none →
      ∀ a b, E (.of (.incompatibleCast a b))) :
    (Expr.mk type (do
      Emit.enterFrame object.frame
      ([] : List Seq).forM id
      let slot ← Emit.slotOf object
      Emit.ops [.new cls, .store slot]
      (items.map fun i => (name i, expr i)).forM fun (name, value) => putField cls layout slot name value
      Emit.op (.load slot)
      Emit.exitFrame object.frame)).Writes E knows (Visible root scope made)
        (Closed K items name expr object cls layout) := by
  have nothing : ∀ i ∈ ([] : List Unit), Emits E knows (Visible root scope made) 0 (fun _ _ => True) Seq.nop := nofun
  refine ⟨regular, (closedEmits (regular.width reference) has
    (fun fs σ visible => ⟨visible.grows, visible.enter _ other others⟩) nothing
    (fun i inside => ⟨(writes i inside).regular.sized, (writes i inside).emits⟩) known may).mono ?_⟩
  rintro σ X ⟨ts, s, P, B, own, holds, none, shape, rfl⟩
  cases none
  exact ⟨ts, s, B, holds, layoutLow (Slots.enterFind ts object holds (own object has rfl)), shape, rfl⟩

def Open (K : ι → Slots → Asm → Prop) (items : List ι) (name : ι → String) (expr : ι → Expr) (record : Local)
    (σ : Slots) (X : Asm) : Prop :=
  ∃ ts s B, (σ.enter record.frame ts).Holds record s ∧ σ.next ≤ s ∧
    Each (fun i => PutsEntry (K i) s (name i) (expr i).type (σ.enter record.frame ts)) items B ∧
    X = [.op (.native .newRecord), .op (.store s)] ++ B ++ [.op (.load s)]

theorem openWrites {record : Local}
    (writes : ∀ i ∈ items, (expr i).Writes E knows (Visible root scope made) (K i)) (has : made.Has record)
    (other : root ≠ record.frame) (others : ∀ l ∈ scope, l.frame ≠ record.frame) :
    (Expr.mk Ty.record.nonNull (do
      Emit.enterFrame record.frame
      ([] : List Seq).forM id
      let slot ← Emit.slotOf record
      Emit.ops [.native .newRecord, .store slot]
      (items.map fun i => entryCode record (name i) (expr i)).forM id
      Emit.op (.load slot)
      Emit.exitFrame record.frame)).Writes E knows (Visible root scope made) (Open K items name expr record) := by
  have nothing : ∀ i ∈ ([] : List Unit), Emits E knows (Visible root scope made) 0 (fun _ _ => True) Seq.nop := nofun
  refine ⟨.atom, (framedEmits (R := fun s σ B => Each (fun i => PutsEntry (K i) s (name i) (expr i).type σ) items B) rfl has
    (fun fs σ visible => ⟨visible.grows, visible.enter _ other others⟩) nothing
    (fun locals Λ => Walk.fitsPlain ⟨rfl, rfl, rfl, rfl⟩ (Nat.zero_le _)) rfl ?_).mono ?_⟩
  · intro fs e₀ e σ A Λ W s Q visible holds walk next
    rw [Emit.forMMap]
    refine Walk.outForM (R := fun i => PutsEntry (K i) s (name i) (expr i).type σ) ?_ walk ?_
    · intro i inside e' A Q walk next
      exact outPutEntry (writes i inside).regular.sized (writes i inside).emits visible holds walk next
    · intro e' B pieces walk
      exact next e' σ B (.refl σ) pieces walk
  · rintro σ X ⟨ts, s, P, B, own, holds, none, shape, rfl⟩
    cases none
    exact ⟨ts, s, B, holds, layoutLow (Slots.enterFind ts record holds (own record has rfl)), shape, rfl⟩

end

end RecordDraft

end QueryMachine
