import QueryMachine.Proofs.Program.Compositional
import QueryMachine.Proofs.Ty.Convertible

/-! Builders on lowered operands make lowered expressions. -/
namespace QueryMachine

open Build

theorem guardAdvances {s : Session} {root : FrameId} {items : List Local} {target : Expr} {body : Expr → Build Expr}
    {E : Error → Prop} {K : Slots → Asm → Prop} {D : Expr → Session → Prop} (good : s.Good)
    (low : root < s.frames.table.size) (operand : target.Writes E s.Knows (Visible root items s.frames) K)
    (direct : target.type.isNullable = false → Advances (body target) s D)
    (held : target.type.isNullable = true → ∀ l s', s.Later s' → s'.Good → l.frame = root →
      l.index = (s.frames.frame root).locals.length →
      l.type = target.type.nonNull → l.read.Writes E s'.Knows (Visible root items s'.frames) (Read l) →
        Advances (body l.read) s' fun r s'' => ∃ K', r.Writes E s''.Knows (Visible root items s''.frames) K' ∧
          ∀ y : Expr, y.type = r.type.boxed.orNull →
            y.Writes E s''.Knows (Visible root items s''.frames) (Guarded K K' target.type r.type l) → D y s'') :
    Advances (guarded root target body none) s D := by
  unfold guarded
  cases nullable : target.type.isNullable with
  | false => exact direct nullable
  | true =>
    simp only [Bool.not_true, Bool.false_eq_true, if_false]
    refine advancesBind (advancesTemp good low "guard" (operand.regular.withNull false)) ?_
    intro l s₁ later₁ good ⟨frame, type, has, index, _⟩
    have visible : ∀ {s'}, s₁.Later s' → ∀ fs σ, Visible root items s'.frames fs σ → ∃ slot, σ.Holds l slot :=
      fun later fs σ visible => visible.root l frame ((has.later later.frames).later visible.grows)
    have regular : l.type.Regular s₁.Knows := by
      rw [type]
      exact (operand.regular.withNull false).mono later₁.knows
    have read : l.read.Writes E s₁.Knows (Visible root items s₁.frames) (Read l) :=
      localWrites regular (visible (.refl s₁))
    refine advancesBind (held nullable l s₁ later₁ good frame index type read) ?_
    intro present s₂ later₂ good ⟨K', writes, made⟩
    refine advancesPure good (made _ rfl ?_)
    have onward := later₁.trans later₂
    have operand : target.Writes E s₂.Knows (Visible root items s₂.frames) K :=
      operand.later onward.knows fun _ _ seen => seen.earlier onward.frames
    exact guardedWrites operand writes nullable type (visible later₂)

end QueryMachine

namespace QueryMachine.Account

open Build Conversion

variable {Z : Account} {s s' : Session} {items : List Local} {x y : Expr}

def Lowered (Z : Account) (s : Session) (items : List Local) (x : Expr) : Prop :=
  x.Writes Z.refuses s.Knows (Visible Z.root items s.frames) (Z.tells s items x.type)

theorem Lowered.later (lowered : Z.Lowered s items x) (rules : Z.Compositional) (later : s.Later s') :
    Z.Lowered s' items x :=
  (Expr.Writes.later lowered later.knows fun _ _ visible => visible.earlier later.frames).mono fun _ _ told =>
    rules.later later told

theorem advancesLowered {b : Build Expr} (rules : Z.Compositional) (good : s.Good) (steady : Steady b (Z.Lowered s items)) :
    Advances b s fun x s' => Z.Lowered s' items x :=
  (advancesSteady good steady).mono fun _ _ later _ lowered => lowered.later rules later

theorem loweredOf {K : Slots → Asm → Prop} {t : Ty} (writes : x.Writes Z.refuses s.Knows (Visible Z.root items s.frames) K)
    (type : x.type = t) (rule : ∀ σ X, K σ X → Z.tells s items t σ X) : Z.Lowered s items x := by
  subst type
  exact writes.mono rule

theorem inlineWidth {h : Heap} {v w : Value} (inline : Constants.inline? v = some w) : w.width = (h.literalType v).width := by
  cases v with
  | boxed b =>
    cases inline
    cases b <;> rfl
  | int v =>
    cases inline
    rfl
  | long v =>
    cases inline
    rfl
  | float v =>
    cases inline
    rfl
  | double v =>
    cases inline
    rfl
  | string v =>
    cases inline
    rfl
  | _ => contradiction

structure Stands (Z : Account) (s : Session) (items : List Local) : Prop where
  low : Z.root < s.frames.table.size
  base : Z.base ≤ (s.frames.frame Z.root).locals.length
  items : ∀ l ∈ items, l.frame < s.frames.table.size

theorem Stands.later (stands : Z.Stands s items) (later : s.Later s') : Z.Stands s' items where
  low := Nat.lt_of_lt_of_le stands.low later.frames.more
  base := by
    obtain ⟨temps, is, _⟩ := later.frames.locals Z.root stands.low
    rw [is, List.length_append]
    exact Nat.le_trans stands.base (Nat.le_add_right _ _)
  items l inside := Nat.lt_of_lt_of_le (stands.items l inside) later.frames.more

theorem resolveAdvances {timeout target : Expr} (good : s.Good) (operand : Z.Lowered s items target) :
    Advances (resolve Z.root timeout target) s fun r s' => Z.Lowered s' items r := by
  have none : Deferred.promised? target.type = none := by
    have regular := operand.regular
    generalize target.type = t at regular
    cases regular <;> rfl
  unfold resolve
  rw [none]
  exact advancesPure good operand

section

variable (rules : Z.Compositional)

include rules

theorem notLowered (operand : Z.Lowered s items x) : Steady (Build.not x) (Z.Lowered s items) := by
  refine (notSteady operand).mono ?_
  intro r ⟨type, writes⟩
  exact loweredOf writes type fun _ _ shape => rules.negation shape

theorem andLowered {xs : List Expr} (operands : ∀ x ∈ xs, Z.Lowered s items x) :
    Steady (Build.and xs) (Z.Lowered s items) := by
  have steady : Steady (Build.and (xs.map id)) _ := andSteady operands
  rw [List.map_id] at steady
  refine steady.mono ?_
  intro r ⟨type, writes⟩
  refine loweredOf writes type ?_
  intro σ X ⟨B, f, done, each, is⟩
  rw [is]
  exact rules.conjunction each

theorem orLowered {xs : List Expr} (operands : ∀ x ∈ xs, Z.Lowered s items x) :
    Steady (Build.or xs) (Z.Lowered s items) := by
  have steady : Steady (Build.or (xs.map id)) _ := orSteady operands
  rw [List.map_id] at steady
  refine steady.mono ?_
  intro r ⟨type, writes⟩
  refine loweredOf writes type ?_
  intro σ X ⟨B, t, done, each, is⟩
  rw [is]
  exact rules.disjunction each

theorem isNullLowered (operand : Z.Lowered s items x) : Z.Lowered s items (Build.isNull x) :=
  loweredOf (isNullWrites operand) rfl fun _ _ shape => rules.nullTold shape

theorem coalesceLowered {xs : List Expr} (operands : ∀ x ∈ xs, Z.Lowered s items x) :
    Steady (Build.coalesce xs) (Z.Lowered s items) := by
  have casts : ∀ type, Coalesced id xs type → ∀ x ∈ upTo id xs, castOps? type (id x).type = none →
      ∀ a b, Z.refuses (.of (.incompatibleCast a b)) := by
    intro type ⟨u, unified, is⟩ x inside missing
    rw [is] at missing
    have regular : ∀ t ∈ (upTo id xs).map (·.type), t.Regular s.Knows :=
      List.forall_mem_map.2 fun y there => (operands y (upToMem there)).regular
    exact absurd missing (Ty.unifyAllConverts regular unified _ x.type (List.mem_map_of_mem inside))
  have steady : Steady (Build.coalesce (xs.map id)) _ := coalesceSteady operands casts
  rw [List.map_id] at steady
  refine steady.mono ?_
  intro r made
  rcases made with ⟨x, only, same⟩ | ⟨type, writes⟩
  · rw [same]
    have inside : x ∈ upTo id xs := by rw [only]; exact List.mem_cons_self
    exact operands x (upToMem inside)
  · refine loweredOf writes rfl ?_
    intro σ X ⟨B, done, each, is⟩
    rw [is]
    exact rules.coalesced type each

theorem selectLowered {test yes no : Expr} (first : Z.Lowered s items test) (second : Z.Lowered s items yes)
    (third : Z.Lowered s items no) (tested : test.type.truth? = none → ∀ a b, Z.refuses (.of (.incompatibleCast a b))) :
    Steady (Build.select [(test, yes)] no) (Z.Lowered s items) := by
  obtain ⟨intoYes, intoNo⟩ := Ty.unifyConverts second.regular third.regular
  refine (selectSteady first second third tested (fun missing => absurd missing intoYes) fun missing => absurd missing intoNo).mono ?_
  intro r ⟨type, writes⟩
  exact loweredOf writes type fun _ _ shape => rules.selected shape

theorem arithmeticLowered {a : Arith} (left : Z.Lowered s items x) (right : Z.Lowered s items y) :
    Steady (arithmetic a x y) (Z.Lowered s items) := by
  refine (arithmeticSteady left right (fun _ _ missing => absurd missing (Ty.castPrimitive left.regular.sized))
    fun _ _ missing => absurd missing (Ty.castPrimitive right.regular.sized)).mono ?_
  intro r ⟨p, numeric, type, writes⟩
  exact loweredOf writes type fun _ _ shape => rules.computed numeric shape

theorem negateLowered (operand : Z.Lowered s items x) : Steady (negate x) (Z.Lowered s items) := by
  refine (negateSteady operand).mono ?_
  intro r ⟨p, is, number, type, writes⟩
  exact loweredOf writes type fun _ _ shape => rules.negated is number shape

theorem compareLowered {location : Location} (left : Z.Lowered s items x) (right : Z.Lowered s items y) :
    Z.Lowered s items (Build.compare x y location) :=
  have ⟨intoLeft, intoRight⟩ := Ty.comparisonConverts left.regular right.regular
  loweredOf (compareWrites left right (fun missing => absurd missing intoLeft) fun missing => absurd missing intoRight) rfl
    fun _ _ shape => rules.compared shape

theorem orderedLowered {c : Cond} {location : Location} (left : Z.Lowered s items x) (right : Z.Lowered s items y) :
    Z.Lowered s items (Build.ordered c x y location) :=
  have ⟨intoLeft, intoRight⟩ := Ty.comparisonConverts left.regular right.regular
  loweredOf (orderedWrites left right (fun missing => absurd missing intoLeft) fun missing => absurd missing intoRight) rfl
    fun _ _ shape => rules.decided shape

theorem equalityLowered {negated : Bool} (left : Z.Lowered s items x) (right : Z.Lowered s items y) :
    Z.Lowered s items (Build.equality x y negated) :=
  have ⟨intoLeft, intoRight⟩ := Ty.comparisonConverts left.regular right.regular
  loweredOf (equalityWrites left right (fun missing => absurd missing intoLeft) fun missing => absurd missing intoRight) rfl
    fun _ _ shape => rules.decided shape

theorem castLowered {t : Ty} (regular : t.Regular s.Knows) (castable : Z.castable t x.type)
    (operand : Z.Lowered s items x) : Steady (Build.cast x t) (Z.Lowered s items) := by
  refine (castSteady operand regular).mono ?_
  intro r made
  rcases made with ⟨p, _, _, type, writes⟩ | ⟨_, type, writes⟩
  · exact loweredOf writes type fun _ _ shape => rules.boxedCast shape
  · exact loweredOf writes type fun _ _ shape => rules.cast castable shape

theorem listLowered {xs : List Expr} (operands : ∀ x ∈ xs, Z.Lowered s items x) : Z.Lowered s items (Build.list xs) := by
  have regular : ∀ t ∈ xs.map (·.type), t.Regular s.Knows := List.forall_mem_map.2 fun y there => (operands y there).regular
  have writes : (Build.list (xs.map id)).Writes _ _ _ _ := listWrites operands fun x inside missing =>
    absurd missing (Ty.unifyOrAnyConverts regular x.type (List.mem_map_of_mem inside))
  rw [List.map_id] at writes
  refine loweredOf writes rfl ?_
  intro σ X ⟨B, each, is⟩
  rw [is]
  exact rules.list each

theorem mapLowered {xs : List (Expr × Expr)} (keys : ∀ x ∈ xs, Z.Lowered s items x.1)
    (values : ∀ x ∈ xs, Z.Lowered s items x.2) : Z.Lowered s items (Build.map xs) := by
  have regular : ∀ t ∈ xs.map (·.1.type), t.Regular s.Knows := List.forall_mem_map.2 fun y there => (keys y there).regular
  have regular' : ∀ t ∈ xs.map (·.2.type), t.Regular s.Knows := List.forall_mem_map.2 fun y there => (values y there).regular
  have writes : (Build.map (xs.map fun x => (x.1, x.2))).Writes _ _ _ _ := mapWrites keys values
    (fun x inside missing => absurd missing (Ty.unifyOrAnyConverts regular x.1.type (List.mem_map_of_mem inside)))
    fun x inside missing => absurd missing (Ty.unifyOrAnyConverts regular' x.2.type (List.mem_map_of_mem inside))
  rw [List.map_id'' fun _ => rfl] at writes
  refine loweredOf writes rfl ?_
  intro σ X ⟨B, each, is⟩
  rw [is]
  exact rules.map each

theorem guardedAdvances {target : Expr} {body : Expr → Build Expr} (good : s.Good) (stands : Z.Stands s items)
    (operand : Z.Lowered s items target)
    (direct : Steady (body target) (Z.Lowered s items))
    (held : ∀ held s', s.Later s' → Z.Scratch held → held.type = target.type.nonNull →
      held.read.Writes Z.refuses s'.Knows (Visible Z.root items s'.frames) (Read held) → Z.Lowered s' items target →
      Steady (body held.read) fun r => ∃ K, r.Writes Z.refuses s'.Knows (Visible Z.root items s'.frames) K ∧
        ∀ σ X, Guarded (Z.tells s' items target.type) K target.type r.type held σ X →
          Z.tells s' items r.type.boxed.orNull σ X) :
    Advances (guarded Z.root target body none) s fun r s' => Z.Lowered s' items r := by
  refine guardAdvances good stands.low operand (fun _ => advancesLowered rules good direct) ?_
  intro _ l s₁ later₁ good frame index type read
  have targeted := operand.later rules later₁
  refine (advancesSteady good (held l s₁ later₁ ⟨frame, index ▸ stands.base⟩ type read targeted)).mono ?_
  intro present s₂ later₂ _ ⟨K, writes, rule⟩
  refine ⟨K, writes.later later₂.knows fun _ _ visible => visible.earlier later₂.frames, ?_⟩
  intro y is guarded
  refine guarded.mono ?_
  intro σ X ⟨T, P, isNull, done, there, slot, os, told, rest⟩
  have said := rule σ X ⟨T, P, isNull, done, there, slot, os, rules.later later₁ told, rest⟩
  rw [is]
  exact rules.later later₂ said

theorem propertyAdvances {target : Expr} {name : String} (good : s.Good) (stands : Z.Stands s items)
    (operand : Z.Lowered s items target) :
    Advances (property Z.root target name) s fun r s' => Z.Lowered s' items r := by
  unfold property
  cases of : PropertyAccess.of? target.type with
  | none => exact advancesFail good rfl
  | some a =>
    have reference : target.type.isPrimitive = false := by
      cases type : target.type with
      | prim p =>
        rw [type] at of
        contradiction
      | _ => rfl
    refine advancesBind (advancesSteady good (steadyLift (P := fun _ => True) ?_ fun _ _ => trivial)) ?_
    · intro err failed
      unfold PropertyAccess.type at failed
      split at failed
      · split at failed
        · contradiction
        · cases failed
          rfl
      · split at failed
        · contradiction
        · cases failed
          rfl
      · contradiction
      · contradiction
      · contradiction
    · intro _ s₁ later good _
      have operand := operand.later rules later
      refine guardedAdvances rules good (stands.later later) operand ?_ ?_
      · refine (propertySteady operand.regular of operand reference).mono ?_
        intro r ⟨type, writes⟩
        exact loweredOf writes rfl fun _ _ shape => rules.property of type shape
      · intro l s₂ later scratch type read operand
        refine (propertySteady operand.regular of read ?_).mono ?_
        · change l.type.isPrimitive = false
          rw [type]
          exact Ty.withNullReference false reference
        · intro r ⟨is, writes⟩
          exact ⟨_, writes, fun _ _ shape => rules.propertyHeld of is scratch type shape⟩

theorem indexAdvances {target key : Expr} (good : s.Good) (stands : Z.Stands s items)
    (operand : Z.Lowered s items target)
    (keyed : Z.Lowered s items key) (keys : ∀ a, IndexAccess.of? target.type = some a → castOps? a.keyType key.type = none →
      ∀ c d, Z.refuses (.of (.incompatibleCast c d))) :
    Advances (index Z.root target key) s fun r s' => Z.Lowered s' items r := by
  unfold index
  cases of : IndexAccess.of? target.type with
  | none => exact advancesFail good rfl
  | some a =>
    have reference : target.type.isPrimitive = false := by
      cases type : target.type with
      | prim p =>
        rw [type] at of
        contradiction
      | _ => rfl
    refine guardedAdvances rules good stands operand ?_ ?_
    · refine (indexSteady operand.regular of operand reference keyed (keys a of)).mono ?_
      intro r ⟨type, writes⟩
      exact loweredOf writes type fun _ _ shape => rules.index of shape
    · intro l s₁ later scratch type read operand
      refine (indexSteady operand.regular of read ?_ (keyed.later rules later) (keys a of)).mono ?_
      · change l.type.isPrimitive = false
        rw [type]
        exact Ty.withNullReference false reference
      · intro r ⟨is, writes⟩
        refine ⟨_, writes, ?_⟩
        intro σ X shape
        rw [is] at shape ⊢
        exact rules.indexHeld of scratch type shape

theorem lengthAdvances {target : Expr} (good : s.Good) (stands : Z.Stands s items)
    (operand : Z.Lowered s items target) :
    Advances (Build.length Z.root target) s fun r s' => Z.Lowered s' items r := by
  unfold Build.length
  cases sized : isSized target.type with
  | false => exact advancesFail good rfl
  | true =>
    have reference : target.type.isPrimitive = false := by
      cases type : target.type with
      | prim p =>
        rw [type] at sized
        contradiction
      | _ => rfl
    simp only [Bool.not_true, Bool.false_eq_true, if_false]
    refine guardedAdvances rules good stands operand ?_ ?_
    · exact steadyPure (loweredOf (lengthWrites operand reference) rfl fun _ _ shape => rules.length shape)
    · intro l s₁ later scratch type read operand
      have held : l.read.type.isPrimitive = false := by
        change l.type.isPrimitive = false
        rw [type]
        exact Ty.withNullReference false reference
      exact steadyPure ⟨_, lengthWrites read held, fun _ _ shape => rules.lengthHeld scratch type shape⟩

theorem nullLowered {t : Ty} (regular : t.Regular s.Knows) : Z.Lowered s items (.null t) := by
  refine loweredOf (nullWrites regular) rfl ?_
  intro σ X is
  rw [show X = _ from is]
  exact rules.null

theorem constantLowered (good : s.Good) (v : Value) :
    Advances (Build.constant v) s fun r s' => Z.Lowered s' items r := by
  refine (constantAdvances good v).mono ?_
  intro x s' later good made
  rcases made with rfl | ⟨w, inline, rfl⟩ | ⟨k, inside, rfl, type⟩
  · exact nullLowered rules .atom
  · rw [← later.heap]
    refine loweredOf (literalWrites (Ty.regularLiteral _ v) (inlineWidth inline)) rfl ?_
    intro σ X is
    rw [show X = _ from is]
    exact rules.inline inline
  · obtain ⟨i, at_⟩ := List.getElem?_of_mem inside
    have field := good.constants i k at_
    have regular : k.type.Regular s'.Knows := by
      rw [type]
      exact Ty.regularLiteral _ v
    have known : s'.Knows k.field.cls := by
      rw [field]
      exact .inr (.inr ⟨rfl, List.ne_nil_of_mem inside⟩)
    refine loweredOf (staticWrites regular (by rw [field]) known) rfl ?_
    intro σ X is
    rw [show X = _ from is]
    exact rules.static inside

end

end QueryMachine.Account
