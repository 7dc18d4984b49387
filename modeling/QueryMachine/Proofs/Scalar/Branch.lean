import QueryMachine.Proofs.Scalar.Formula
import QueryMachine.Proofs.Unit.Constructor

/-! Choices among integers, and lists of them. Operands are converted to the type in which all of them meet; the number of an
operand stays the same, but a box is not changed for one of another kind. -/
namespace QueryMachine

open Machine (Thread Performs push)

theorem Prim.Into.trans {p q r : Prim} (first : p.Into q) (second : q.Into r) : p.Into r := by
  obtain rfl | ⟨left, middle, less⟩ := first
  · exact second
  · obtain rfl | ⟨_, right, more⟩ := second
    · exact .inr ⟨left, middle, less⟩
    · exact .inr ⟨left, right, Nat.le_trans less more⟩

namespace Scalar

/-! ### Where scalars meet -/

variable {c : Scalar} {cs : List Scalar}

theorem castFound (d c : Scalar) : Conversion.castOps? d.type c.type ≠ none := by
  rw [castIs]
  exact nofun

theorem joinNullable {a b : Scalar} (nullable : a.form = .nullable ∨ b.form = .nullable) : (a.join b).form = .nullable := by
  obtain ⟨p, form⟩ := a
  obtain ⟨q, form'⟩ := b
  cases form <;> cases form' <;> simp_all [join, Form.join]

theorem foldAlike (alike : ∀ a ∈ c :: cs, ∀ b ∈ c :: cs, a.kind.Alike b.kind) :
    Ty.unifyAll ((c :: cs).map type) = .ok (cs.foldl join c).type ∧ ∀ a ∈ c :: cs, a.kind.Into (cs.foldl join c).kind := by
  induction cs generalizing c with
  | nil => exact ⟨rfl, fun a inside => .inl (by rw [List.mem_singleton.1 inside]; rfl)⟩
  | cons d ds ih =>
    have pair := alike c (by simp) d (by simp)
    obtain ⟨first, second⟩ := Prim.widerInto pair
    have joined : ∀ a ∈ c.join d :: ds, ∀ b ∈ c.join d :: ds, a.kind.Alike b.kind := by
      have one : (c.join d).kind = c.kind ∨ (c.join d).kind = d.kind := by
        unfold join Prim.wider
        split
        · exact .inr rfl
        · exact .inl rfl
      have each : ∀ a ∈ c.join d :: ds, ∃ b ∈ c :: d :: ds, a.kind = b.kind := by
        intro a inside
        obtain rfl | later := List.mem_cons.1 inside
        · exact one.elim (fun same => ⟨c, by simp, same⟩) fun same => ⟨d, by simp, same⟩
        · exact ⟨a, by simp [later], rfl⟩
      intro a insideA b insideB
      obtain ⟨a', inA, sameA⟩ := each a insideA
      obtain ⟨b', inB, sameB⟩ := each b insideB
      rw [sameA, sameB]
      exact alike a' inA b' inB
    obtain ⟨unified, into⟩ := ih joined
    refine ⟨?_, ?_⟩
    · simp only [List.map_cons, Ty.unifyAll, List.foldl_cons] at unified ⊢
      rw [unifyIs pair]
      exact unified
    · intro a inside
      have whole := into (c.join d) List.mem_cons_self
      rw [List.mem_cons, List.mem_cons] at inside
      obtain rfl | rfl | later := inside
      · exact first.trans whole
      · exact second.trans whole
      · exact into a (List.mem_cons_of_mem _ later)

theorem upToSub (inside : c ∈ upTo cs) : c ∈ cs := by
  induction cs with
  | nil => contradiction
  | cons d ds ih =>
    unfold upTo at inside
    split at inside
    · exact (List.mem_cons.1 inside).elim (fun same => same ▸ List.mem_cons_self) fun later => List.mem_cons_of_mem d (ih later)
    · rw [List.mem_singleton.1 inside]
      exact List.mem_cons_self

theorem upToNullable {d : Scalar} {rest : List Scalar} (listed : upTo cs = c :: d :: rest) : c.form = .nullable := by
  cases cs with
  | nil => contradiction
  | cons e es =>
    unfold upTo at listed
    split at listed
    · next nullable =>
      injection listed with same
      rw [← same]
      exact nullableIff.1 nullable
    · cases listed

theorem foldNullable (cs : List Scalar) (nullable : c.form = .nullable) : (cs.foldl join c).form = .nullable := by
  induction cs generalizing c with
  | nil => exact nullable
  | cons d ds ih => exact ih (joinNullable (.inl nullable))

theorem firstType {rest : List Scalar} (listed : upTo cs = c :: rest)
    (alike : ∀ a ∈ c :: rest, ∀ b ∈ c :: rest, a.kind.Alike b.kind) {u : Ty}
    (unified : Ty.unifyAll ((c :: rest).map type) = .ok u) :
    u.withNull (!(c :: rest).any (!·.isNullable)) = (first cs).type := by
  rw [(foldAlike alike).1] at unified
  cases unified
  unfold first
  rw [listed]
  cases rest with
  | nil =>
    obtain ⟨p, form⟩ := c
    cases form <;> rfl
  | cons d rest =>
    have nullable := foldNullable (d :: rest) (upToNullable listed)
    dsimp only
    generalize (d :: rest).foldl join c = joined at nullable
    obtain ⟨p, form⟩ := joined
    cases nullable
    cases (c :: d :: rest).any (!·.isNullable) <;> rfl

theorem firstOnly (listed : upTo cs = [c]) : first cs = c := by
  unfold first
  rw [listed]

theorem firstNullable {rest : List Scalar} (listed : upTo cs = c :: rest) :
    (∃ a ∈ c :: rest, a.form ≠ .nullable) ∨ (first cs).form = .nullable := by
  by_cases some : ∃ a ∈ c :: rest, a.form ≠ .nullable
  · exact .inl some
  · right
    simp only [not_exists, not_and, not_not] at some
    unfold first
    rw [listed]
    cases rest with
    | nil => exact some c List.mem_cons_self
    | cons d rest =>
      have none : (c :: d :: rest).any (!·.isNullable) = false := by
        rw [List.any_eq_false]
        intro a inside
        simp [isNullable, some a inside]
      dsimp only
      rw [none]
      rfl

theorem firstInto {rest : List Scalar} (listed : upTo cs = c :: rest)
    (alike : ∀ a ∈ c :: rest, ∀ b ∈ c :: rest, a.kind.Alike b.kind) : ∀ a ∈ c :: rest, a.kind.Into (first cs).kind := by
  have kind : (first cs).kind = (rest.foldl join c).kind := by
    unfold first
    rw [listed]
    cases rest <;> rfl
  intro a inside
  rw [kind]
  exact (foldAlike alike).2 a inside

theorem foldRoom {cs : List Scalar} (nullable : ∃ a ∈ c :: cs, a.form = .nullable) : (cs.foldl join c).form = .nullable := by
  induction cs generalizing c with
  | nil =>
    obtain ⟨a, inside, is⟩ := nullable
    rwa [List.mem_singleton.1 inside] at is
  | cons d ds ih =>
    obtain ⟨a, inside, is⟩ := nullable
    obtain rfl | rest := List.mem_cons.1 inside
    · exact foldNullable ds (joinNullable (.inl is))
    obtain rfl | later := List.mem_cons.1 rest
    · exact foldNullable ds (joinNullable (.inr is))
    · exact ih ⟨a, List.mem_cons_of_mem _ later, is⟩

def meet : List Scalar → Scalar
  | [] => ⟨.int32, .nullable⟩
  | c :: cs => cs.foldl join c

/-! ### Builders -/

section

variable {E : Error → Prop} {knows : String → Prop} {Γ : Frames → Slots → Prop} {ι : Type} {expr : ι → Expr}
  {K : ι → Slots → Asm → Prop} {c : ι → Scalar} {items : List ι}

def Combining (E : Error → Prop) (knows : String → Prop) (Γ : Frames → Slots → Prop) (K : ι → Slots → Asm → Prop)
    (c : ι → Scalar) (items : List ι) (make : Build Expr) (d : Scalar)
    (f : (ι → Except Fault (Option Int)) → Except Fault (Option Int)) : Prop :=
  ∀ s, ∃ y K', make s = (.ok y, s) ∧ y.type = d.type ∧ y.Writes E knows Γ K' ∧
    ∀ (θ : Thread) ls σ (r : ι → Except Fault (Option Int)) X, (∀ i ∈ items, ∀ B, K i σ B → θ.Yields ls B (c i) (r i)) →
      K' σ X → θ.Yields ls X d (f r)

theorem selectCombining {test yes no : ι} (typed : ∀ i ∈ [test, yes, no], (expr i).type = (c i).type)
    (writes : ∀ i ∈ [test, yes, no], (expr i).Writes E knows Γ (K i)) (alike : (c yes).kind.Alike (c no).kind) :
    let d := (c yes).join (c no)
    Combining E knows Γ K c [test, yes, no] (Build.select [(expr test, expr yes)] (expr no)) d fun r =>
      (do if truth (← r test) then r yes >>= d.carry (c yes) else r no >>= d.carry (c no)) := by
  intro d s
  simp only [List.mem_cons, List.not_mem_nil, or_false, forall_eq_or_imp, forall_eq] at typed writes
  obtain ⟨testTyped, yesTyped, noTyped⟩ := typed
  obtain ⟨testWrites, yesWrites, noWrites⟩ := writes
  have unified : Ty.unify (expr yes).type (expr no).type = d.type := by rw [yesTyped, noTyped, unifyIs alike]
  obtain ⟨intoYes, intoNo⟩ := Prim.widerInto alike
  have made := (Build.selectSteady (E := E) testWrites yesWrites noWrites (by
    rw [testTyped, typeTruth]
    exact nofun) (by
    rw [unified, yesTyped]
    exact fun none => absurd none (castFound _ _)) (by
    rw [unified, noTyped]
    exact fun none => absurd none (castFound _ _))) s
  obtain ⟨⟨type, written⟩, -⟩ := made.ok rfl
  refine ⟨_, _, rfl, type.trans unified, written, ?_⟩
  intro θ ls σ r X operands selected
  simp only [List.mem_cons, List.not_mem_nil, or_false, forall_eq_or_imp, forall_eq] at operands
  obtain ⟨testYields, yesYields, noYields⟩ := operands
  rw [testTyped, yesTyped, noTyped] at selected
  rw [yesTyped, noTyped] at unified
  exact Thread.selectedYields testYields yesYields noYields unified intoYes intoNo (fun is => joinNullable (.inl is))
    (fun is => joinNullable (.inr is)) selected

theorem upToTypes (typed : ∀ i ∈ items, (expr i).type = (c i).type) :
    upTo (items.map c) = (Build.upTo expr items).map c := by
  induction items with
  | nil => rfl
  | cons i is ih =>
    rw [List.forall_mem_cons] at typed
    rw [List.map_cons, upTo, Build.upTo, typed.1, typeNullable]
    split
    · rw [ih typed.2, List.map_cons]
    · rfl

theorem firstUpTo {r : ι → Except Fault (Option Int)}
    (present : ∀ i ∈ Build.upTo expr items, (expr i).type.isNullable = false → r i ≠ .ok none) :
    firstOf r (Build.upTo expr items) = firstOf r items := by
  induction items with
  | nil => rfl
  | cons i is ih =>
    unfold Build.upTo at present ⊢
    split
    · next nullable =>
      rw [if_pos nullable, List.forall_mem_cons] at present
      rw [firstOf, firstOf, ih present.2]
    · next never =>
      rw [if_neg never, List.forall_mem_singleton] at present
      have some := present (by simpa using never)
      simp only [firstOf]
      cases answer : r i with
      | error err => rfl
      | ok x =>
        cases x with
        | none => exact absurd answer some
        | some n => rfl

theorem coalescedType (typed : ∀ i ∈ items, (expr i).type = (c i).type)
    (alike : ∀ a ∈ upTo (items.map c), ∀ b ∈ upTo (items.map c), a.kind.Alike b.kind) {type : Ty}
    (coalesced : Build.Coalesced expr items type) : type = (first (items.map c)).type := by
  obtain ⟨u, unified, rfl⟩ := coalesced
  have listing := upToTypes typed
  have types : (Build.upTo expr items).map (fun i => (expr i).type) = ((Build.upTo expr items).map c).map Scalar.type := by
    rw [List.map_map]
    exact List.map_congr_left fun i member => typed i (Build.upToMem member)
  have terminates : Build.terminal expr (Build.upTo expr items) = ((Build.upTo expr items).map c).any (!·.isNullable) := by
    unfold Build.terminal
    rw [List.any_map, Bool.eq_iff_iff, List.any_eq_true, List.any_eq_true]
    refine exists_congr fun i => and_congr_right fun member => ?_
    rw [typed i (Build.upToMem member), typeNullable]
    rfl
  rw [types, ← listing] at unified
  rw [terminates, ← listing]
  cases is : upTo (items.map c) with
  | nil =>
    rw [is] at unified
    contradiction
  | cons a rest =>
    rw [is] at unified alike
    exact firstType is alike unified

theorem coalesceMakes (typed : ∀ i ∈ items, (expr i).type = (c i).type)
    (alike : ∀ a ∈ upTo (items.map c), ∀ b ∈ upTo (items.map c), a.kind.Alike b.kind) (some : items ≠ []) (s : Session) :
    ∃ y, Build.coalesce (items.map expr) s = (.ok y, s) := by
  unfold Build.coalesce
  rw [Build.upToMap]
  have types : ((Build.upTo expr items).map expr).map (·.type) = (upTo (items.map c)).map Scalar.type := by
    rw [upToTypes typed, List.map_map, List.map_map]
    exact List.map_congr_left fun i member => typed i (Build.upToMem member)
  rcases only : Build.upTo expr items with _ | ⟨i, _ | ⟨j, js⟩⟩
  · cases items with
    | nil => contradiction
    | cons i is =>
      unfold Build.upTo at only
      split at only <;> contradiction
  · exact ⟨_, rfl⟩
  · obtain ⟨a, rest, listed⟩ : ∃ a rest, upTo (items.map c) = a :: rest := by
      rw [upToTypes typed, only]
      exact ⟨_, _, rfl⟩
    rw [listed] at alike types
    rw [only] at types
    simp only [List.map_cons] at types ⊢
    rw [types, ← List.map_cons, (foldAlike alike).1]
    exact ⟨_, rfl⟩

theorem coalesceYields (typed : ∀ i ∈ items, (expr i).type = (c i).type)
    (writes : ∀ i ∈ items, (expr i).Writes E knows Γ (K i))
    (alike : ∀ a ∈ upTo (items.map c), ∀ b ∈ upTo (items.map c), a.kind.Alike b.kind) (some : items ≠ []) (s : Session) :
    let d := first (items.map c)
    ∃ y K', Build.coalesce (items.map expr) s = (.ok y, s) ∧ y.type = d.type ∧ y.Writes E knows Γ K' ∧
      ∀ (θ : Thread) ls σ (r : ι → Except Fault (Option Int)) X,
        (∀ i ∈ items, ∀ B, K i σ B → θ.Yields ls B (c i) (r i)) → K' σ X →
          (∀ i ∈ Build.upTo expr items, (expr i).type.isNullable = false → r i ≠ .ok none) ∧
            θ.Yields ls X d (firstOf (fun i => r i >>= d.carry (c i)) (Build.upTo expr items)) := by
  intro d
  obtain ⟨y, made⟩ := coalesceMakes typed alike some s
  have may : ∀ type, Build.Coalesced expr items type → ∀ i ∈ Build.upTo expr items,
      Conversion.castOps? type (expr i).type = none → ∀ a b, E (.of (.incompatibleCast a b)) := by
    intro type coalesced i member none
    rw [coalescedType typed alike coalesced, typed i (Build.upToMem member)] at none
    exact absurd none (castFound _ _)
  obtain ⟨shape, -⟩ := (Build.coalesceSteady writes may s).ok made
  have listing := upToTypes typed
  have present : ∀ (θ : Thread) ls σ (r : ι → Except Fault (Option Int)),
      (∀ i ∈ items, ∀ B, K i σ B → θ.Yields ls B (c i) (r i)) → (∀ i ∈ Build.upTo expr items, ∃ B, K i σ B) →
      ∀ i ∈ Build.upTo expr items, (expr i).type.isNullable = false → r i ≠ .ok none := by
    intro θ ls σ r operands written i member never missing
    obtain ⟨B, shape⟩ := written i member
    have form := (operands i (Build.upToMem member) B shape).admits none missing
    rw [typed i (Build.upToMem member), typeNullable, nullableIff.2 form] at never
    contradiction
  rcases shape with ⟨i, only, rfl⟩ | ⟨coalesced, written⟩
  · have first : i ∈ Build.upTo expr items := by rw [only]; exact List.mem_cons_self
    have member := Build.upToMem first
    have same : d = c i := firstOnly (by rw [listing, only]; rfl)
    refine ⟨_, _, made, by rw [same]; exact typed i member, writes i member, ?_⟩
    intro θ ls σ r X operands shape
    refine ⟨present θ ls σ r operands (by rw [only]; exact fun j at_ => ⟨X, List.mem_singleton.1 at_ ▸ shape⟩), ?_⟩
    have alone : firstOf (fun j => r j >>= (c i).carry (c j)) [i] = r i := by
      have kept : (c i).Keeps (c i) := ⟨.inl rfl, .inr (.inr rfl)⟩
      rw [firstOf, firstOf, kept.carriesAll]
      rcases r i with err | x
      · rfl
      · cases x <;> rfl
    rw [only, same, alone]
    exact operands i member X shape
  · have type := coalescedType typed alike coalesced
    refine ⟨y, _, made, type, written, ?_⟩
    rintro θ ls σ r _ operands ⟨B, done, each, rfl⟩
    rw [type] at each
    refine ⟨present θ ls σ r operands fun i member => Thread.eachOffer each member, ?_⟩
    obtain ⟨a, rest, listed⟩ : ∃ a rest, upTo (items.map c) = a :: rest := by
      obtain ⟨u, unified, _⟩ := coalesced
      rw [listing]
      cases is : Build.upTo expr items with
      | nil =>
        rw [is] at unified
        contradiction
      | cons i is => exact ⟨_, _, rfl⟩
    have inside : ∀ i ∈ Build.upTo expr items, c i ∈ a :: rest := by
      intro i member
      rw [← listed, listing]
      exact List.mem_map_of_mem member
    rw [listed] at alike
    have always : (∃ b ∈ a :: rest, b.form ≠ .nullable) → ∃ i ∈ Build.upTo expr items, (c i).form ≠ .nullable := by
      rw [← listed, listing]
      rintro ⟨b, mapped, never⟩
      obtain ⟨i, member, rfl⟩ := List.mem_map.1 mapped
      exact ⟨i, member, never⟩
    refine Thread.coalescedYields (fun i member => ⟨typed i (Build.upToMem member), operands i (Build.upToMem member)⟩)
      (fun i member => firstInto listed alike _ (inside i member)) ((firstNullable listed).imp_left always) ?_ each
    cases ends : Build.terminal expr (Build.upTo expr items) with
    | false => exact .inr rfl
    | true =>
      obtain ⟨i, member, never⟩ := List.any_eq_true.1 ends
      refine .inl ⟨rfl, i, member, fun form => ?_⟩
      rw [typed i (Build.upToMem member), typeNullable, nullableIff.2 form] at never
      contradiction

theorem coalesceCombining (typed : ∀ i ∈ items, (expr i).type = (c i).type)
    (writes : ∀ i ∈ items, (expr i).Writes E knows Γ (K i))
    (alike : ∀ a ∈ upTo (items.map c), ∀ b ∈ upTo (items.map c), a.kind.Alike b.kind) (some : items ≠ []) :
    let d := first (items.map c)
    Combining E knows Γ K c items (Build.coalesce (items.map expr)) d fun r => firstOf (fun i => r i >>= d.carry (c i)) items := by
  intro d s
  obtain ⟨y, K', made, type, written, yields⟩ := coalesceYields typed writes alike some s
  refine ⟨y, K', made, type, written, fun θ ls σ r X operands shape => ?_⟩
  obtain ⟨present, yields⟩ := yields θ ls σ r X operands shape
  beta_reduce
  rwa [← firstUpTo fun i member never missing => present i member never (carriedSame missing)]

/-! ### Lists -/

theorem unifiedType (typed : ∀ i ∈ items, (expr i).type = (c i).type)
    (alike : ∀ a ∈ items.map c, ∀ b ∈ items.map c, a.kind.Alike b.kind) (some : items ≠ []) :
    Ty.unifyOrAny (items.map fun i => (expr i).type) = (meet (items.map c)).type ∧
      ∀ i ∈ items, (c i).kind.Into (meet (items.map c)).kind ∧
        ((c i).form = .nullable → (meet (items.map c)).form = .nullable) := by
  have types : (items.map fun i => (expr i).type) = (items.map c).map type := by
    rw [List.map_map]
    exact List.map_congr_left typed
  rw [types]
  cases items with
  | nil => contradiction
  | cons i is =>
    obtain ⟨unified, into⟩ := foldAlike alike
    refine ⟨Except.ok.inj unified, fun j inside => ?_⟩
    have member : c j ∈ c i :: is.map c := List.mem_map_of_mem inside
    exact ⟨into _ member, fun nullable => foldRoom ⟨_, member, nullable⟩⟩

end

end Scalar

namespace Machine.Thread

variable {θ : Thread} {ls : List Value} {c d : Scalar} {r : Except Fault (Option Int)} {K : Slots → Asm → Prop} {σ : Slots}
  {X : Asm}

theorem boxedRuns {w : World} {s : Stack} {x : Option Int} (admits : d.Admits x) :
    θ.Runs w (Asm.box d.type) (push (d.value x) s) ls (.ok (.on (Scalar.value ⟨d.kind, .nullable⟩ x :: s) ls)) := by
  obtain ⟨p, form⟩ := d
  cases form with
  | raw =>
    cases x with
    | none => contradiction
    | some n => exact runsStraight (Prim.boxPerforms admits)
  | boxed => cases x <;> exact runsNil
  | nullable => cases x <;> exact runsNil

theorem elementRuns (operand : ∀ B, K σ B → θ.Yields ls B c r) (into : c.kind.Into d.kind)
    (room : c.form = .nullable → d.form = .nullable) (element : Element K d.type c.type σ X) (w : World) (s : Stack) :
    θ.Runs w X s ls ((r >>= d.carry c).map fun x => .on (Scalar.value ⟨d.kind, .nullable⟩ x :: s) ls) := by
  obtain ⟨C, converted, rfl⟩ := element
  obtain ⟨admits, runs⟩ := convertedYields operand into room converted
  have ran := runs w s
  cases answer : r >>= d.carry c with
  | error f =>
    rw [answer] at ran
    exact runsError ran _
  | ok x =>
    rw [answer] at ran
    exact runsAppend ran (boxedRuns (admits x answer))

def Gathers (θ : Thread) (ls : List Value) (X : Asm) (d : Scalar) (rs : Except Fault (List (Option Int))) : Prop :=
  ∀ p q w s, θ.method.Spans p X q → match rs with
    | .ok xs => θ.Course ⟨p, s, ls, w⟩ (.ok ⟨q, .list w.heap.lists.size :: s, ls,
        { w with heap := (w.heap.newList (xs.map (Scalar.value ⟨d.kind, .nullable⟩)).toArray).2 }⟩)
    | .error f => ∃ w', θ.Course ⟨p, s, ls, w⟩ (.error (f, w'))

variable {ι : Type} {items : List ι} {types : ι → Ty}

theorem elementsGo {scalars : ι → Scalar} {rs : ι → Except Fault (Option Int)} {Ks : ι → Slots → Asm → Prop} {elem : Ty}
    (operands : ∀ i ∈ items, elem = d.type ∧ types i = (scalars i).type ∧ (scalars i).kind.Into d.kind ∧
      ((scalars i).form = .nullable → d.form = .nullable) ∧ ∀ B, Ks i σ B → θ.Yields ls B (scalars i) (rs i))
    (each : Each (fun i => Added (Ks i) elem (types i) σ) items X) (done : List Value) {p q : Nat} {w : World}
    {s : Stack} (spans : θ.method.Spans p X q) :
    match items.mapM fun i => rs i >>= d.carry (scalars i) with
    | .ok xs => θ.Course ⟨p, .list w.heap.lists.size :: s, ls, { w with heap := (w.heap.newList done.toArray).2 }⟩
        (.ok ⟨q, .list w.heap.lists.size :: s, ls,
          { w with heap := (w.heap.newList (done ++ xs.map (Scalar.value ⟨d.kind, .nullable⟩)).toArray).2 }⟩)
    | .error f => ∃ w', θ.Course ⟨p, .list w.heap.lists.size :: s, ls, { w with heap := (w.heap.newList done.toArray).2 }⟩
        (.error (f, w')) := by
  induction items generalizing X p done with
  | nil =>
    cases each
    cases spans
    simp only [List.mapM_nil, pure, Except.pure, List.map_nil, List.append_nil]
    exact .refl _
  | cons i is ih =>
    obtain ⟨_, rest, ⟨C, element, rfl⟩, others, rfl⟩ := each
    rw [List.forall_mem_cons] at operands
    obtain ⟨⟨rfl, typed, into, room, operand⟩, operands⟩ := operands
    rw [typed] at element
    obtain ⟨mid, first, tail⟩ := Method.spansAppend.1 spans
    obtain ⟨last, front, add, rfl⟩ := Method.spansAppend.1 first
    obtain ⟨_, ⟨dup, rfl⟩, code⟩ := Method.spansAppend.1 front
    let w₁ : World := { w with heap := (w.heap.newList done.toArray).2 }
    have start : θ.Course ⟨p, .list w.heap.lists.size :: s, ls, w₁⟩
        (.ok ⟨p + 1, .list w.heap.lists.size :: .list w.heap.lists.size :: s, ls, w₁⟩) := Thread.next dup rfl
    have ran := elementRuns operand into room element w₁ (.list w.heap.lists.size :: .list w.heap.lists.size :: s)
      (p + 1) last code
    rw [List.mapM_cons]
    cases answer : rs i >>= d.carry (scalars i) with
    | error f =>
      rw [answer] at ran
      exact ⟨_, start.trans ran⟩
    | ok x =>
      rw [answer] at ran
      have added := Struct.appends (s := .list w.heap.lists.size :: s) ls (Scalar.value ⟨d.kind, .nullable⟩ x)
        w.heap.lists.size (w := w₁) add
      rw [Heap.newListIs, Heap.newListSet, show done.toArray.push (Scalar.value ⟨d.kind, .nullable⟩ x) =
        (done ++ [Scalar.value ⟨d.kind, .nullable⟩ x]).toArray by simp] at added
      have goes := start.trans (ran.trans added)
      have after := ih operands others (done ++ [Scalar.value ⟨d.kind, .nullable⟩ x]) tail
      cases further : is.mapM fun i => rs i >>= d.carry (scalars i) with
      | error f =>
        rw [further] at after
        obtain ⟨w', ends⟩ := after
        exact ⟨w', goes.trans ends⟩
      | ok xs =>
        rw [further] at after
        simp only [bind, Except.bind, pure, Except.pure, List.map_cons]
        rw [List.append_cons]
        exact goes.trans after

end Machine.Thread

namespace Scalar

variable {E : Error → Prop} {knows : String → Prop} {Γ : Frames → Slots → Prop} {ι : Type} {expr : ι → Expr}
  {K : ι → Slots → Asm → Prop} {c : ι → Scalar} {items : List ι}

theorem integersAlike {cs : List Scalar} (integers : ∀ a ∈ cs, a.kind.isInteger) :
    ∀ a ∈ cs, ∀ b ∈ cs, a.kind.Alike b.kind := fun a insideA b insideB => .inl ⟨integers a insideA, integers b insideB⟩

theorem listGathers (typed : ∀ i ∈ items, (expr i).type = (c i).type)
    (writes : ∀ i ∈ items, (expr i).Writes E knows Γ (K i))
    (alike : ∀ a ∈ items.map c, ∀ b ∈ items.map c, a.kind.Alike b.kind) :
    let d := meet (items.map c)
    ∃ K', (Build.list (items.map expr)).Writes E knows Γ K' ∧
      ∀ (θ : Thread) ls σ (r : ι → Except Fault (Option Int)) X, (∀ i ∈ items, ∀ B, K i σ B → θ.Yields ls B (c i) (r i)) →
        K' σ X → θ.Gathers ls X d (items.mapM fun i => r i >>= d.carry (c i)) := by
  intro d
  have unified : ∀ i ∈ items, Ty.unifyOrAny (items.map fun i => (expr i).type) = d.type ∧ (c i).kind.Into d.kind ∧
      ((c i).form = .nullable → d.form = .nullable) := by
    intro i inside
    obtain ⟨type, rest⟩ := unifiedType typed alike (List.ne_nil_of_mem inside)
    exact ⟨type, rest i inside⟩
  refine ⟨_, listWrites writes ?_, ?_⟩
  · intro i inside none
    rw [(unified i inside).1, typed i inside] at none
    exact absurd none (castFound _ _)
  · rintro θ ls σ r _ operands ⟨B, each, rfl⟩ p q w s spans
    obtain ⟨_, ⟨new, rfl⟩, adds⟩ := Method.spansAppend.1 spans
    have makes : θ.Course ⟨p, s, ls, w⟩ (.ok ⟨p + 1, .list w.heap.lists.size :: s, ls,
        { w with heap := (w.heap.newList #[]).2 }⟩) := Machine.Scene.outers (θ := θ.scene) new rfl fun _ _ => rfl
    have goes := Thread.elementsGo (fun i inside => ⟨(unified i inside).1, typed i inside, (unified i inside).2.1,
      (unified i inside).2.2, operands i inside⟩) each [] (w := w) (s := s) adds
    cases all : items.mapM fun i => r i >>= d.carry (c i) with
    | error f =>
      rw [all] at goes
      obtain ⟨w', ends⟩ := goes
      exact ⟨w', makes.trans ends⟩
    | ok xs =>
      rw [all] at goes
      exact makes.trans goes

/-- An operand of a scalar, with the code that it writes. -/
structure Operand (E : Error → Prop) (knows : String → Prop) (Γ : Frames → Slots → Prop) where
  expr : Expr
  scalar : Scalar
  code : Slots → Asm → Prop
  typed : expr.type = scalar.type
  writes : expr.Writes E knows Γ code

/-- An IF or COALESCE of integers of any kinds, in boxes or not, yields the number of the operand that it selects, or null
where that is null, and a list of integers has those of all its operands in order. The type in which operands meet holds the
numbers of each. Only where an operand is a box of one kind and that type one of another does the number not come through:
the box is not opened, and the code ends with a fault. -/
theorem branchesCarry :
    (∀ test yes no : Operand E knows Γ, yes.scalar.kind.isInteger → no.scalar.kind.isInteger →
      let d := yes.scalar.join no.scalar
      Combining E knows Γ Operand.code Operand.scalar [test, yes, no] (Build.select [(test.expr, yes.expr)] no.expr) d
        fun r => (do if truth (← r test) then r yes >>= d.carry yes.scalar else r no >>= d.carry no.scalar)) ∧
    (∀ items : List (Operand E knows Γ), items ≠ [] → (∀ i ∈ items, i.scalar.kind.isInteger) →
      let d := first (items.map (·.scalar))
      Combining E knows Γ Operand.code Operand.scalar items (Build.coalesce (items.map (·.expr))) d
        fun r => firstOf (fun i => r i >>= d.carry i.scalar) items) ∧
    ∀ items : List (Operand E knows Γ), items ≠ [] → (∀ i ∈ items, i.scalar.kind.isInteger) →
      let d := meet (items.map (·.scalar))
      let made := Build.list (items.map (·.expr))
      made.type = (Ty.list d.type).nonNull ∧ ∃ K', made.Writes E knows Γ K' ∧
        ∀ (θ : Thread) ls σ (r : Operand E knows Γ → Except Fault (Option Int)) X,
          (∀ i ∈ items, ∀ B, i.code σ B → θ.Yields ls B i.scalar (r i)) → K' σ X →
            θ.Gathers ls X d (items.mapM fun i => r i >>= d.carry i.scalar) := by
  have integers : ∀ items : List (Operand E knows Γ), (∀ i ∈ items, i.scalar.kind.isInteger) →
      ∀ a ∈ items.map (·.scalar), a.kind.isInteger := by
    intro items all a inside
    obtain ⟨i, member, rfl⟩ := List.mem_map.1 inside
    exact all i member
  refine ⟨?_, ?_, ?_⟩
  · intro test yes no first second
    have typed : ∀ i ∈ [test, yes, no], i.expr.type = i.scalar.type := fun i _ => i.typed
    exact selectCombining typed (fun i _ => i.writes) (.inl ⟨first, second⟩)
  · intro items some all
    have alike := integersAlike fun a inside => integers items all a (upToSub inside)
    exact coalesceCombining (fun i _ => i.typed) (fun i _ => i.writes) alike some
  · intro items some all
    have alike := integersAlike (integers items all)
    refine ⟨?_, listGathers (fun i _ => i.typed) (fun i _ => i.writes) alike⟩
    have types : (items.map (·.expr)).map (·.type) = items.map fun i => i.expr.type := List.map_map
    unfold Build.list Build.filled
    rw [types, (unifiedType (fun i _ => i.typed) alike some).1]

abbrev Plain : Type := Operand (fun _ => False) (fun _ => False) fun _ _ => True

def holding : Plain := ⟨.boolean true, ⟨.boolean, .raw⟩, Single (.const (.int 1)), rfl, literalWrites .prim rfl⟩

def byte : Plain := ⟨.literal (.boxed (.byte 1)) (.boxedOf .int8), ⟨.int8, .nullable⟩, Single (.const (.boxed (.byte 1))),
  rfl, literalWrites .atom rfl⟩

def missing : Plain := ⟨.null (.prim .int64), ⟨.int64, .nullable⟩, Single .constNull, rfl, nullWrites .prim⟩

theorem boxNotOpened : ∃ y K', Build.select [(holding.expr, byte.expr)] missing.expr (.new .default .empty) =
      (.ok y, .new .default .empty) ∧
    y.type = .boxedOf .int64 ∧ y.Writes (fun _ => False) (fun _ => False) (fun _ _ => True) K' ∧
    ∀ (θ : Thread) ls σ X, K' σ X → θ.Yields ls X ⟨.int64, .nullable⟩ (.error (.classCast "Long" "Byte")) := by
  obtain ⟨y, K', made, type, written, yields⟩ := branchesCarry.1 holding byte missing rfl rfl (.new .default .empty)
  refine ⟨y, K', made, type, written, fun θ ls σ X shape => ?_⟩
  have held : Prim.boolean.Holds 1 := .inr rfl
  have small : Prim.int8.Holds 1 := by simp [Prim.Holds]
  let r : Plain → Except Fault (Option Int) := fun o => if o.scalar = ⟨.int64, .nullable⟩ then .ok none else .ok (some 1)
  refine yields θ ls σ r X ?_ shape
  intro o inside B code
  simp only [List.mem_cons, List.not_mem_nil, or_false] at inside
  obtain rfl | rfl | rfl := inside
  · cases code
    exact Thread.constYields held
  · cases code
    exact ⟨fun x is => by cases is; exact small, fun w s => Thread.runsOp rfl Thread.runsNil⟩
  · cases code
    exact Thread.nullYields _

end Scalar

end QueryMachine
