import QueryMachine.Proofs.Program.Compile
import QueryMachine.Proofs.Scalar.Branch

/-! Formulas as they are lowered: the code of a formula makes its value, by induction over the formula. -/
namespace QueryMachine

open Build
open Conversion (castOps?)
open Machine (Thread)
open Machine.Thread (resultScalar resultScalarType)

def Settles {α : Type} (x : Build α) (s : Session) (P : α → Session → Prop) : Prop :=
  Advances x s P ∧ (x s).2.units = s.units

section

variable {α β : Type} {s : Session} {P : α → Session → Prop} {R : β → Session → Prop}

theorem endsState {x : Build α} {Q : Session → Prop} : Ends x s (fun _ => Q) (fun _ => Q) ↔ Q (x s).2 := by
  unfold Ends
  rcases x s with ⟨err | v, s'⟩ <;> exact Iff.rfl

theorem settlesPure {v : α} (good : s.Good) (h : P v s) : Settles (pure v) s P := ⟨advancesPure good h, rfl⟩

theorem settlesFail {c : Cause} (good : s.Good) (refusal : c.isInternal = false) : Settles (Build.fail c) s P :=
  ⟨advancesFail good refusal, rfl⟩

theorem settlesBind {x : Build α} {f : α → Build β} (first : Settles x s P)
    (second : ∀ v s', s.Later s' → s'.Good → P v s' → Settles (f v) s' R) : Settles (x >>= f) s R := by
  obtain ⟨advances, units⟩ := first
  refine ⟨advancesBind advances fun v s' later good h => (second v s' later good h).1, ?_⟩
  rcases answer : x s with ⟨err | v, s'⟩
  · rw [bindError answer, ← units, answer]
  · obtain ⟨h, later, good⟩ := Ends.ok advances answer
    rw [bindOk answer, (second v s' later good h).2, ← units, answer]

theorem settlesGet {f : Session → Build β} (h : Settles (f s) s R) : Settles (get >>= f) s R :=
  ⟨advancesGet h.1, h.2⟩

theorem Settles.mono {x : Build α} {P' : α → Session → Prop} (h : Settles x s P)
    (weaker : ∀ v s', s.Later s' → s'.Good → P v s' → P' v s') : Settles x s P' := ⟨h.1.mono weaker, h.2⟩

theorem settlesSteady {x : Build α} {H : α → Prop} (good : s.Good) (steady : Steady x H) :
    Settles x s fun v _ => H v := by
  have near : s.Near (x s).2 := endsState.1 ((steady s).mono (fun _ _ is => is.2) fun _ _ is => is.2)
  obtain ⟨n, is⟩ := near
  exact ⟨advancesSteady good steady, by rw [is]⟩

theorem settlesAnswer {x : Build α} {v : α} (good : s.Good) (made : x s = (.ok v, s)) (h : P v s) : Settles x s P := by
  refine ⟨?_, by rw [made]⟩
  unfold Advances Ends
  rw [made]
  exact ⟨h, .refl s, good⟩

theorem settlesLocated {l : Lowering} (env : Lowering.Env) {P : Expr → Session → Prop} (location : Location)
    (made : Settles (l env) s P) : Settles (Lowering.located location l env) s P := by
  refine ⟨Account.locatedAdvances location made.1, ?_⟩
  rw [← made.2]
  unfold Lowering.located
  split
  · rfl
  · rw [Account.tryLocated]
    rcases l env s with ⟨err | x, s'⟩ <;> rfl

theorem resolveSettles {c : ContextId} {t : ValueType} (good : s.Good) (whole : t.scalar?.isSome) :
    Settles (Resolve.value c t) s fun type s' => t.Resolves s'.Knows type := by
  unfold ValueType.scalar? at whole
  split at whole
  · next p =>
    refine ⟨Resolve.valueAdvances (.scalar p) trivial good, ?_⟩
    rw [Resolve.value]
    rfl
  · next p =>
    refine ⟨Resolve.valueAdvances (.optional (.scalar p)) trivial good, endsState (Q := fun s' => s'.units = s.units).1 ?_⟩
    rw [Resolve.value, endsBind, endsGet]
    · cases s.types.value? c (.optional (.scalar p)) with
      | some type => rfl
      | none =>
        dsimp only
        rw [Resolve.value]
        rfl
    · exact nofun
  · contradiction

end

theorem Prim.widerWhole {p q : Prim} (first : p.isWhole) (second : q.isWhole) : (p.wider q).isWhole := by
  unfold wider
  split
  · exact second
  · exact first

theorem Prim.wholeInteger {p : Prim} (whole : p.isWhole) (number : p ≠ .boolean) : p.isInteger := by
  rw [isWhole, Bool.or_eq_true, beq_iff_eq] at whole
  exact whole.resolve_right number

def Cond.build (c : Cond) (location : Location) (x y : Expr) : Expr :=
  match c with
  | .eq => equality x y false
  | .ne => equality x y true
  | c => ordered c x y location

namespace Scalar

theorem foldWhole {c : Scalar} {cs : List Scalar} (all : ∀ a ∈ c :: cs, a.kind.isWhole) :
    (cs.foldl join c).kind.isWhole := by
  induction cs generalizing c with
  | nil => exact all c List.mem_cons_self
  | cons d ds ih =>
    refine ih ?_
    simp only [List.mem_cons, forall_eq_or_imp] at all ⊢
    exact ⟨Prim.widerWhole all.1 all.2.1, all.2.2⟩

theorem firstWhole {cs : List Scalar} (all : ∀ a ∈ cs, a.kind.isWhole) : (first cs).kind.isWhole := by
  have all : ∀ a ∈ upTo cs, a.kind.isWhole := fun a inside => all a (upToSub inside)
  unfold first
  split
  · rfl
  · next c only => exact all c (by rw [only]; exact List.mem_cons_self)
  · next c rest _ listed => exact foldWhole (listed ▸ all)

theorem joinKeeps {a b : Scalar} (meet : Meet [a, b]) : (a.join b).Keeps a ∧ (a.join b).Keeps b := by
  obtain ⟨left, right⟩ := Prim.widerInto (meet.alike a (by simp) b (by simp))
  have kept := meet.kept a [b] rfl
  exact ⟨⟨left, (kept a (by simp)).imp_right .inr⟩, ⟨right, (kept b (by simp)).imp_right .inr⟩⟩

section

variable {c : Scalar} {cs : List Scalar}

theorem firstKeeps {rest : List Scalar} (listed : upTo cs = c :: rest) (meet : Meet (c :: rest)) :
    ∀ a ∈ c :: rest, (first cs).Keeps a := by
  have kind : (first cs).kind = (rest.foldl join c).kind := by
    unfold first
    rw [listed]
    cases rest <;> rfl
  intro a inside
  refine ⟨?_, ?_⟩
  · rw [kind]
    exact (foldAlike meet.alike).2 a inside
  · rw [kind]
    exact (meet.kept c rest rfl a inside).imp_right .inr

end

end Scalar

namespace Formula

variable {params : List (String × ValueType)} {joins : List Scalar → Prop}

mutual

theorem scalarWhole (f : Formula) (fits : f.Fits params joins) : (f.scalar params).kind.isWhole := by
  match f with
  | literal v _ =>
    rw [Fits] at fits
    obtain ⟨⟨p, n⟩, is⟩ := Option.isSome_iff_exists.1 fits
    rw [(literalIs is params [] _).1]
    exact (Value.wholeHolds is).2
  | null t _ =>
    rw [Fits] at fits
    obtain ⟨c, is⟩ := Option.isSome_iff_exists.1 fits
    rw [scalar, is]
    exact (ValueType.scalarWhole is : c.kind.isWhole = true)
  | argument name _ =>
    rw [scalar]
    cases is : (params.lookup name).bind ValueType.scalar? with
    | none => rfl
    | some c =>
      obtain ⟨t, _, is⟩ := Option.bind_eq_some_iff.1 is
      exact ValueType.scalarWhole is
  | arith a left right _ =>
    rw [Fits] at fits
    rw [scalar]
    exact Prim.widerWhole (scalarWhole left fits.1) (scalarWhole right fits.2)
  | negate x _ =>
    rw [Fits] at fits
    rw [scalar]
    exact scalarWhole x fits
  | cond test yes no _ =>
    rw [Fits] at fits
    rw [scalar]
    exact Prim.widerWhole (scalarWhole yes fits.2.1) (scalarWhole no fits.2.2.1)
  | coalesce xs _ =>
    rw [Fits] at fits
    rw [scalar]
    exact Scalar.firstWhole (scalarsWhole xs fits.1)
  | not _ _ | and _ _ | or _ _ | relation _ _ _ _ | isNull _ _ | compare _ _ _ =>
    rw [scalar]
    rfl
termination_by sizeOf f

theorem scalarsWhole (xs : List Formula) (fits : FitAll params joins xs) : ∀ c ∈ scalars params xs, c.kind.isWhole := by
  cases xs with
  | nil =>
    rw [scalars]
    exact nofun
  | cons x xs =>
    rw [FitAll] at fits
    rw [scalars, List.forall_mem_cons]
    exact ⟨scalarWhole x fits.1, scalarsWhole xs fits.2⟩
termination_by sizeOf xs

end

/-- Locals hold the arguments: under each name a number of the parameter's scalar, or null. -/
def Given (params : List (String × ValueType)) (args : List (String × Option Int)) (locals : List (String × Local))
    (σ : Slots) (ls : List Value) : Prop :=
  ∀ name l, locals.lookup name = some l → ∃ c x, (params.lookup name).bind ValueType.scalar? = some c ∧
    args.lookup name = some x ∧ c.Admits x ∧ ∀ slot, σ.Holds l slot → ls[slot]? = some (c.value x)

def Means (params : List (String × ValueType)) (locals : List (String × Local)) (f : Formula) (σ : Slots) (X : Asm) : Prop :=
  ∀ (θ : Thread) (ls : List Value) (args : List (String × Option Int)), Given params args locals σ ls →
    θ.Yields ls X (f.scalar params) (f.eval params args)

def Declared (params : List (String × ValueType)) (s : Session) (env : Lowering.Env) : Prop :=
  ∀ name l, env.arguments.lookup name = some l → l.frame = env.frame ∧ s.frames.Has l ∧
    ∃ c, (params.lookup name).bind ValueType.scalar? = some c ∧ l.type = c.type

structure Compiles (params : List (String × ValueType)) (env : Lowering.Env) (s : Session) (f : Formula) (x : Expr) :
    Prop where
  typed : x.type = (f.scalar params).type
  writes : x.Writes (fun _ => False) s.Knows (Visible env.frame [] s.frames) (f.Means params env.arguments)

variable {env : Lowering.Env} {s s' : Session} {f g h : Formula} {x y z : Expr}

theorem Declared.later (declared : Declared params s env) (later : s.Later s') : Declared params s' env := by
  intro name l found
  obtain ⟨frame, has, is⟩ := declared name l found
  exact ⟨frame, has.later later.frames, is⟩

theorem Compiles.later (compiles : f.Compiles params env s x) (later : s.Later s') : f.Compiles params env s' x :=
  ⟨compiles.typed, compiles.writes.later later.knows fun _ _ visible => visible.earlier later.frames⟩

theorem compilesOf {K : Slots → Asm → Prop} (typed : x.type = (f.scalar params).type)
    (writes : x.Writes (fun _ => False) s.Knows (Visible env.frame [] s.frames) K)
    (means : ∀ σ X, K σ X → f.Means params env.arguments σ X) : f.Compiles params env s x :=
  ⟨typed, writes.mono means⟩

/-! ### Leaves -/

theorem wholeLiteral {v : Value} {p : Prim} {n : Int} (is : v.whole? = some (p, n)) (h : Heap) (c : Constants) :
    c.literal h v = (.literal (p.raw n) (.prim p), c) := by
  have same : ∀ i : Int32, Value.int i = .int (.ofInt i.toInt) := fun i => by rw [Int32.ofInt_toInt]
  have wide : ∀ i : Int64, Value.long i = .long (.ofInt i.toInt) := fun i => by rw [Int64.ofInt_toInt]
  unfold Value.whole? at is
  split at is
  · cases is
    exact congrArg (fun v => (Expr.literal v _, c)) (same _)
  · cases is
    exact congrArg (fun v => (Expr.literal v _, c)) (wide _)
  · next v =>
    cases is
    cases v <;> rfl
  · next v =>
    cases is
    have kept : Value.int v.toInt32 = .int (.ofInt v.toInt) := by rw [same, Int8.toInt_toInt32]
    exact congrArg (fun v => (Expr.literal v _, c)) kept
  · next v =>
    cases is
    have kept : Value.int v.toInt32 = .int (.ofInt v.toInt) := by rw [same, Int16.toInt_toInt32]
    exact congrArg (fun v => (Expr.literal v _, c)) kept
  · cases is
    exact congrArg (fun v => (Expr.literal v _, c)) (same _)
  · cases is
    exact congrArg (fun v => (Expr.literal v _, c)) (wide _)
  · cases is

theorem literalCompiles {v : Value} {location : Location} (good : s.Good) (fits : (literal v location).Fits params joins) :
    Settles (Build.constant v) s fun x s' => (literal v location).Compiles params env s' x := by
  rw [Fits] at fits
  obtain ⟨⟨p, n⟩, is⟩ := Option.isSome_iff_exists.1 fits
  obtain ⟨holds, _⟩ := Value.wholeHolds is
  unfold Build.constant
  refine settlesGet ?_
  rw [wholeLiteral is]
  have written : (literal v location).Compiles params env s (.literal (p.raw n) (.prim p)) := by
    refine compilesOf ?_ (literalWrites .prim (Prim.rawWidth holds)) ?_
    · rw [(literalIs is params [] location).1]
      rfl
    · rintro σ _ ⟨⟩ θ ls args _
      obtain ⟨scalarIs, evalIs⟩ := literalIs is params args location
      rw [scalarIs, evalIs]
      exact Thread.constYields holds
  exact ⟨⟨written, .refl s, good⟩, rfl⟩

theorem nullCompiles {t : ValueType} {location : Location} {type : Ty} (fits : (null t location).Fits params joins)
    (resolves : t.Resolves s.Knows type) : (null t location).Compiles params env s (.null type) := by
  rw [Fits] at fits
  obtain ⟨c, is⟩ := Option.isSome_iff_exists.1 fits
  have boxed : type.boxed.orNull = .boxedOf c.kind := by
    unfold ValueType.scalar? at is
    split at is
    · split at is
      · cases is
        rw [resolves.scalar _ rfl]
        rfl
      · contradiction
    · split at is
      · cases is
        rw [resolves.optional _ rfl]
        rfl
      · contradiction
    · contradiction
  refine compilesOf ?_ (nullWrites resolves.regular) ?_
  · rw [scalar, is]
    exact boxed
  · rintro σ _ ⟨⟩ θ ls args _
    rw [scalar, eval]
    exact Thread.nullYields _

theorem argumentCompiles {name : String} {location : Location} (good : s.Good) (declared : Declared params s env) :
    Settles (Lowering.argumentNamed name env) s fun x s' => (argument name location).Compiles params env s' x := by
  unfold Lowering.argumentNamed
  split
  · next l found =>
    obtain ⟨frame, has, c, is, type⟩ := declared name l found
    refine settlesPure good (compilesOf ?_ (localWrites (good.locals l has) ?_) ?_)
    · rw [scalar, is]
      exact type
    · intro fs σ visible
      exact visible.root l frame (has.later visible.grows)
    · intro σ X read θ ls args given
      obtain ⟨d, x, same, value, admits, held⟩ := given name l found
      cases is.symm.trans same
      rw [scalar, eval, is, value]
      exact Thread.readYields type admits held read
  · exact settlesFail good rfl

/-! ### Operators -/

theorem arithCompiles {a : Arith} {location : Location} (good : s.Good) (fits : (arith a f g location).Fits params joins)
    (left : f.Compiles params env s x) (right : g.Compiles params env s y) :
    Settles (arithmetic a x y) s fun r s' => (arith a f g location).Compiles params env s' r := by
  rw [Fits] at fits
  refine (settlesSteady good (arithmeticSteady left.writes right.writes ?_ ?_)).mono ?_
  · intro p _ none
    rw [left.typed] at none
    exact (Scalar.castFound ⟨p, .raw⟩ _ none).elim
  · intro p _ none
    rw [right.typed] at none
    exact (Scalar.castFound ⟨p, .raw⟩ _ none).elim
  · intro r s' later _ ⟨p, numeric, type, writes⟩
    rw [left.typed, right.typed] at numeric writes type
    obtain ⟨first, second, rfl⟩ := Scalar.numericIs (scalarWhole f fits.1) (scalarWhole g fits.2) numeric
    refine Compiles.later (compilesOf ?_ writes ?_) later
    · rw [type, scalar, resultScalarType, Scalar.typeNullable, Scalar.typeNullable]
    · intro σ X computed θ ls args given
      obtain ⟨intoLeft, intoRight⟩ := Prim.widerInto (.inl ⟨first, second⟩)
      rw [scalar, eval]
      rw [scalar]
      exact Thread.computedYields (fun _ shape => shape θ ls args given) (fun _ shape => shape θ ls args given)
        (Prim.widerInteger first second) intoLeft intoRight computed

theorem negateCompiles {location : Location} (good : s.Good) (fits : (negate f location).Fits params joins)
    (operand : f.Compiles params env s x) :
    Settles (Build.negate x) s fun r s' => (negate f location).Compiles params env s' r := by
  rw [Fits] at fits
  refine (settlesSteady good (negateSteady operand.writes)).mono ?_
  intro r s' later _ ⟨p, is, number, type, writes⟩
  rw [operand.typed] at is type writes
  rw [Scalar.typePrim] at is
  cases is
  refine Compiles.later (compilesOf ?_ writes ?_) later
  · rw [type, scalar, resultScalarType, Scalar.typeNullable]
  · intro σ X negated θ ls args given
    rw [scalar, eval]
    exact Thread.negatedYields (fun _ shape => shape θ ls args given) (Prim.wholeInteger (scalarWhole f fits) number) negated

theorem notCompiles {location : Location} (good : s.Good) (operand : f.Compiles params env s x) :
    Settles (Build.not x) s fun r s' => (not f location).Compiles params env s' r := by
  refine (settlesSteady good (notSteady operand.writes)).mono ?_
  intro r s' later _ ⟨type, writes⟩
  refine Compiles.later (compilesOf ?_ writes ?_) later
  · rw [type, scalar]
    rfl
  · intro σ X chosen θ ls args given
    rw [operand.typed] at chosen
    rw [scalar, eval]
    exact Thread.chosenYields (fun _ shape => shape θ ls args given) chosen

theorem isNullCompiles {location : Location} (operand : f.Compiles params env s x) :
    (isNull f location).Compiles params env s (Build.isNull x) := by
  refine compilesOf ?_ (isNullWrites operand.writes) ?_
  · rw [scalar]
    rfl
  · intro σ X told θ ls args given
    rw [operand.typed] at told
    rw [scalar, eval]
    exact Thread.nullToldYields (fun _ shape => shape θ ls args given) told

theorem comparisonCasts (left : f.Compiles params env s x) (right : g.Compiles params env s y)
    (alike : (f.scalar params).kind.Alike (g.scalar params).kind) :
    castOps? (Operands.comparison x.type y.type) x.type ≠ none ∧
      castOps? (Operands.comparison x.type y.type) y.type ≠ none := by
  rw [left.typed, right.typed, Scalar.comparisonIs alike]
  exact ⟨Scalar.castFound ⟨_, .raw⟩ _, Scalar.castFound ⟨_, .raw⟩ _⟩

theorem relationCompiles {c : Cond} {location : Location} (fits : (relation c f g location).Fits params joins)
    (left : f.Compiles params env s x) (right : g.Compiles params env s y) :
    (relation c f g location).Compiles params env s (c.build location x y) := by
  rw [Fits] at fits
  obtain ⟨_, _, alike⟩ := fits
  have comparison := Scalar.comparisonIs alike
  obtain ⟨intoLeft, intoRight⟩ := Prim.widerInto alike
  obtain ⟨castLeft, castRight⟩ := comparisonCasts left right alike
  have means : ∀ decide : Label → List Op,
      (∀ l, decide l = [.cmp ((f.scalar params).kind.wider (g.scalar params).kind).num, .ifZero c.negate l]) →
      ∀ σ X, Decided (f.Means params env.arguments) (g.Means params env.arguments) x.type y.type decide σ X →
        (relation c f g location).Means params env.arguments σ X := by
    intro decide deciding σ X decided θ ls args given
    rw [left.typed, right.typed] at decided
    have yields := Thread.decidedYields (fun _ shape => shape θ ls args given) (fun _ shape => shape θ ls args given)
      intoLeft intoRight comparison deciding decided
    rw [scalar, eval]
    cases answer : pairOf (f.eval params args) (g.eval params args) with
    | error err =>
      rw [answer] at yields
      exact yields
    | ok pair =>
      rw [answer] at yields
      cases pair <;> exact yields
  have equal : ∀ negated, c = (if negated then .ne else .eq) →
      (relation c f g location).Compiles params env s (equality x y negated) := by
    intro negated is
    refine compilesOf (by rw [scalar]; rfl) (equalityWrites left.writes right.writes (fun none => absurd none castLeft)
      fun none => absurd none castRight) (means _ ?_)
    intro l
    rw [left.typed, right.typed, comparison, is]
    cases negated <;> rfl
  have order : (relation c f g location).Compiles params env s (ordered c x y location) := by
    refine compilesOf (by rw [scalar]; rfl) (orderedWrites left.writes right.writes (fun none => absurd none castLeft)
      fun none => absurd none castRight) (means _ ?_)
    intro l
    rw [left.typed, right.typed, comparison]
    rfl
  cases c with
  | eq => exact equal false rfl
  | ne => exact equal true rfl
  | _ => exact order

theorem compareCompiles {location : Location} (fits : (compare f g location).Fits params joins)
    (left : f.Compiles params env s x) (right : g.Compiles params env s y) :
    (compare f g location).Compiles params env s (Build.compare x y location) := by
  rw [Fits] at fits
  obtain ⟨_, _, alike⟩ := fits
  obtain ⟨intoLeft, intoRight⟩ := Prim.widerInto alike
  obtain ⟨castLeft, castRight⟩ := comparisonCasts left right alike
  refine compilesOf (by rw [scalar]; rfl) (compareWrites left.writes right.writes (fun none => absurd none castLeft)
    fun none => absurd none castRight) ?_
  intro σ X compared θ ls args given
  rw [left.typed, right.typed] at compared
  rw [scalar, eval]
  exact Thread.comparedYields (fun _ shape => shape θ ls args given) (fun _ shape => shape θ ls args given)
    intoLeft intoRight (Scalar.comparisonIs alike) compared

def Items (params : List (String × ValueType)) (env : Lowering.Env) (s : Session) (items : List (Formula × Expr)) : Prop :=
  ∀ i ∈ items, i.1.Compiles params env s i.2

theorem Items.operands {items : List (Formula × Expr)} (all : Items params env s items) {σ : Slots} {θ : Thread}
    {ls : List Value} {args : List (String × Option Int)} (given : Given params args env.arguments σ ls) :
    ∀ i ∈ items, i.2.type = (i.1.scalar params).type ∧ ∀ B, i.1.Means params env.arguments σ B →
      θ.Yields ls B (i.1.scalar params) (i.1.eval params args) :=
  fun i inside => ⟨(all i inside).typed, fun _ shape => shape θ ls args given⟩

theorem Items.typed {items : List (Formula × Expr)} (all : Items params env s items) :
    ∀ i ∈ items, i.2.type = (i.1.scalar params).type := fun i inside => (all i inside).typed

theorem Items.writes {items : List (Formula × Expr)} (all : Items params env s items) : ∀ i ∈ items,
    i.2.Writes (fun _ => False) s.Knows (Visible env.frame [] s.frames) (i.1.Means params env.arguments) :=
  fun i inside => (all i inside).writes

theorem allOfMap {ι : Type} (r : ι → Except Fault (Option Int)) (is : List ι) : allOf id (is.map r) = allOf r is := by
  induction is with
  | nil => rfl
  | cons i is ih => rw [List.map_cons, allOf, allOf, ih, id]

theorem anyOfMap {ι : Type} (r : ι → Except Fault (Option Int)) (is : List ι) : anyOf id (is.map r) = anyOf r is := by
  induction is with
  | nil => rfl
  | cons i is ih => rw [List.map_cons, anyOf, anyOf, ih, id]

theorem firstOfMap {ι : Type} (r : ι → Except Fault (Option Int)) (is : List ι) : firstOf id (is.map r) = firstOf r is := by
  induction is with
  | nil => rfl
  | cons i is ih => rw [List.map_cons, firstOf, firstOf, ih, id]

section

variable {items : List (Formula × Expr)} {location : Location}

theorem andCompiles (good : s.Good) (all : Items params env s items) :
    Settles (Build.and (items.map (·.2))) s fun r s' => (and (items.map (·.1)) location).Compiles params env s' r := by
  have steady : Steady (Build.and (items.map (·.2))) _ := andSteady fun i inside => (all i inside).writes
  refine (settlesSteady good steady).mono ?_
  intro r s' later _ ⟨type, writes⟩
  refine Compiles.later (compilesOf ?_ writes ?_) later
  · rw [type, scalar]
    rfl
  · rintro σ _ ⟨B, l, done, each, rfl⟩ θ ls args given
    rw [scalar, eval, evalsMap, List.map_map, allOfMap]
    exact Thread.conjunctionYields (all.operands given) each

theorem orCompiles (good : s.Good) (all : Items params env s items) :
    Settles (Build.or (items.map (·.2))) s fun r s' => (or (items.map (·.1)) location).Compiles params env s' r := by
  have steady : Steady (Build.or (items.map (·.2))) _ := orSteady fun i inside => (all i inside).writes
  refine (settlesSteady good steady).mono ?_
  intro r s' later _ ⟨type, writes⟩
  refine Compiles.later (compilesOf ?_ writes ?_) later
  · rw [type, scalar]
    rfl
  · rintro σ _ ⟨B, l, done, each, rfl⟩ θ ls args given
    rw [scalar, eval, evalsMap, List.map_map, anyOfMap]
    exact Thread.disjunctionYields (all.operands given) each

theorem coalesceScalar : (coalesce (items.map (·.1)) location).scalar params = .first (items.map fun i => i.1.scalar params) := by
  rw [scalar, scalarsMap, List.map_map]
  rfl

theorem upToFitting (all : Items params env s items) {joins : List Scalar → Prop}
    (fits : (coalesce (items.map (·.1)) location).Fits params joins) :
    joins ((upTo (·.2) items).map fun i => i.1.scalar params) := by
  rw [Fits, scalarsMap, List.map_map] at fits
  rw [← Scalar.upToTypes all.typed]
  exact fits.2

theorem condCompiles (good : s.Good) (fits : (cond f g h location).Fits params Scalar.Meet)
    (test : f.Compiles params env s x) (yes : g.Compiles params env s y) (no : h.Compiles params env s z) :
    Settles (select [(x, y)] z) s fun r s' => (cond f g h location).Compiles params env s' r := by
  rw [Fits] at fits
  obtain ⟨_, _, _, meet⟩ := fits
  obtain ⟨keepsYes, keepsNo⟩ := Scalar.joinKeeps meet
  have all : Items params env s [(f, x), (g, y), (h, z)] := by simpa [Items] using ⟨test, yes, no⟩
  obtain ⟨r, K, made, type, written, yields⟩ := Scalar.selectCombining
    all.typed all.writes (meet.alike _ (by simp) _ (by simp)) s
  refine settlesAnswer good made (compilesOf (by rw [type, scalar]) written ?_)
  intro σ X shape θ ls args given
  have yields := yields θ ls σ (fun i => i.1.eval params args) X (fun i inside B means => means θ ls args given) shape
  rw [scalar, eval]
  dsimp only at yields
  rwa [keepsYes.carriesAll, keepsNo.carriesAll] at yields

theorem coalesceCompiles (good : s.Good) (all : Items params env s items)
    (fits : (coalesce (items.map (·.1)) location).Fits params Scalar.Meet) :
    Settles (Build.coalesce (items.map (·.2))) s fun r s' =>
      (coalesce (items.map (·.1)) location).Compiles params env s' r := by
  by_cases none : items = []
  · subst none
    exact settlesFail good rfl
  have meet := upToFitting all fits
  have listing := Scalar.upToTypes all.typed
  rw [← listing] at meet
  obtain ⟨r, K, made, type, written, yields⟩ := Scalar.coalesceYields all.typed all.writes meet.alike none s
  refine settlesAnswer good made (compilesOf (by rw [type, coalesceScalar]) written ?_)
  intro σ X shape θ ls args given
  obtain ⟨present, yields⟩ := yields θ ls σ (fun i => i.1.eval params args) X (fun i inside B means => means θ ls args given)
    shape
  have keeps : ∀ i ∈ upTo (·.2) items, (Scalar.first (items.map fun i => i.1.scalar params)).Keeps (i.1.scalar params) := by
    intro i inside
    have member := List.mem_map_of_mem (f := fun i : Formula × Expr => i.1.scalar params) inside
    rw [← listing] at member
    cases listed : Scalar.upTo (items.map fun i => i.1.scalar params) with
    | nil =>
      rw [listed] at member
      contradiction
    | cons a rest =>
      rw [listed] at member meet
      exact Scalar.firstKeeps listed meet _ member
  rw [coalesceScalar, eval, evalsMap, List.map_map, firstOfMap]
  rw [firstCongr fun i inside => (keeps i inside).carriesAll (i.1.eval params args), Scalar.firstUpTo present] at yields
  exact yields

end

/-! ### Whole formulas -/

theorem nullLowered {t : ValueType} {location : Location} (good : s.Good) (fits : (null t location).Fits params joins) :
    Settles (Lowering.apply ⟨.null, Lowering.ofArgs [.type t]⟩ location env) s fun x s' =>
      (null t location).Compiles params env s' x := by
  have parts := fits
  rw [Fits] at parts
  refine settlesBind (P := fun type? s' => ∃ type, type? = some type ∧ t.Resolves s'.Knows type) ?_ ?_
  · refine settlesBind (resolveSettles good parts) ?_
    intro type s' _ good resolves
    exact settlesPure good ⟨type, rfl, resolves⟩
  · rintro _ s' _ good ⟨type, rfl, resolves⟩
    exact settlesPure good (nullCompiles fits resolves)

mutual

theorem lowers (f : Formula) (fits : f.Fits params Scalar.Meet) {s : Session} (good : s.Good)
    (declared : Declared params s env) :
    Settles (Lowering.ofNode f.node env) s fun x s' => f.Compiles params env s' x := by
  have parts := fits
  match f with
  | literal v location =>
    rw [node]
    exact settlesLocated env location (literalCompiles good fits)
  | null t location =>
    rw [node]
    exact settlesLocated env location (nullLowered good fits)
  | argument name location =>
    rw [node]
    exact settlesLocated env location (argumentCompiles good declared)
  | arith a left right location =>
    have same : Lowering.ofNode (arith a left right location).node env = Lowering.located location (fun env => do
        let x ← Lowering.ofNode left.node env
        let y ← Lowering.ofNode right.node env
        arithmetic a x y) env := by
      rw [node]
      cases a <;> rfl
    rw [same]
    rw [Fits] at parts
    refine settlesLocated env location (settlesBind (lowers left parts.1 good declared) ?_)
    intro x s₁ later₁ good first
    refine settlesBind (lowers right parts.2 good (declared.later later₁)) ?_
    intro y s₂ later₂ good second
    exact arithCompiles good fits (first.later later₂) second
  | negate x location =>
    rw [node]
    rw [Fits] at parts
    refine settlesLocated env location (settlesBind (lowers x parts good declared) ?_)
    intro x s₁ _ good operand
    exact negateCompiles good fits operand
  | not x location =>
    rw [node]
    rw [Fits] at parts
    refine settlesLocated env location (settlesBind (lowers x parts good declared) ?_)
    intro x s₁ _ good operand
    exact notCompiles good operand
  | and xs location =>
    rw [node]
    rw [Fits] at parts
    refine settlesLocated env location (settlesBind (lowersAll xs parts good declared) ?_)
    rintro _ s₁ _ good ⟨items, rfl, rfl, all⟩
    exact andCompiles good all
  | or xs location =>
    rw [node]
    rw [Fits] at parts
    refine settlesLocated env location (settlesBind (lowersAll xs parts good declared) ?_)
    rintro _ s₁ _ good ⟨items, rfl, rfl, all⟩
    exact orCompiles good all
  | relation c left right location =>
    have same : Lowering.ofNode (relation c left right location).node env = Lowering.located location (fun env => do
        let x ← Lowering.ofNode left.node env
        let y ← Lowering.ofNode right.node env
        return c.build location x y) env := by
      rw [node]
      cases c <;> rfl
    rw [same]
    rw [Fits] at parts
    refine settlesLocated env location (settlesBind (lowers left parts.1 good declared) ?_)
    intro x s₁ later₁ good first
    refine settlesBind (lowers right parts.2.1 good (declared.later later₁)) ?_
    intro y s₂ later₂ good second
    exact settlesPure good (relationCompiles fits (first.later later₂) second)
  | compare left right location =>
    rw [node]
    rw [Fits] at parts
    refine settlesLocated env location (settlesBind (lowers left parts.1 good declared) ?_)
    intro x s₁ later₁ good first
    refine settlesBind (lowers right parts.2.1 good (declared.later later₁)) ?_
    intro y s₂ later₂ good second
    exact settlesPure good (compareCompiles fits (first.later later₂) second)
  | isNull x location =>
    rw [node]
    rw [Fits] at parts
    refine settlesLocated env location (settlesBind (lowers x parts good declared) ?_)
    intro x s₁ _ good operand
    exact settlesPure good (isNullCompiles operand)
  | cond test yes no location =>
    rw [node]
    rw [Fits] at parts
    refine settlesLocated env location (settlesBind (lowers test parts.1 good declared) ?_)
    intro x s₁ later₁ good first
    refine settlesBind (lowers yes parts.2.1 good (declared.later later₁)) ?_
    intro y s₂ later₂ good second
    refine settlesBind (lowers no parts.2.2.1 good (declared.later (later₁.trans later₂))) ?_
    intro z s₃ later₃ good third
    exact condCompiles good fits (first.later (later₂.trans later₃)) (second.later later₃) third
  | coalesce xs location =>
    rw [node]
    rw [Fits] at parts
    refine settlesLocated env location (settlesBind (lowersAll xs parts.1 good declared) ?_)
    rintro _ s₁ _ good ⟨items, rfl, rfl, all⟩
    exact coalesceCompiles good all fits
termination_by sizeOf f

theorem lowersAll (xs : List Formula) (fits : FitAll params Scalar.Meet xs) {s : Session} (good : s.Good)
    (declared : Declared params s env) :
    Settles ((Lowering.ofNodes (nodes xs)).mapM (· env)) s fun es s' =>
      ∃ items, items.map (·.1) = xs ∧ items.map (·.2) = es ∧ Items params env s' items := by
  cases xs with
  | nil =>
    rw [nodes]
    exact settlesPure good ⟨[], rfl, rfl, nofun⟩
  | cons x xs =>
    rw [FitAll] at fits
    rw [nodes, Lowering.ofNodes, List.mapM_cons]
    refine settlesBind (lowers x fits.1 good declared) ?_
    intro e s₁ later₁ good first
    refine settlesBind (lowersAll xs fits.2 good (declared.later later₁)) ?_
    rintro _ s₂ later₂ good ⟨items, rfl, rfl, all⟩
    refine settlesPure good ⟨(x, e) :: items, rfl, rfl, ?_⟩
    unfold Items
    rw [List.forall_mem_cons]
    exact ⟨first.later later₂, all⟩
termination_by sizeOf xs

end

end Formula

end QueryMachine
