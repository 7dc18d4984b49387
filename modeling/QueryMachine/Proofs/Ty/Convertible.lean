import QueryMachine.Build.Operands
import QueryMachine.Build.Record
import QueryMachine.Proofs.Code.Casting
import QueryMachine.Proofs.Ty.Regular

/-! Where conversions exist. Between references the machine checks, so that the only conversions that do not exist are those
of primitives to classes that have nothing to do with them. The common type of operands is never such a class. -/
namespace QueryMachine

open Conversion (castOps? checkOps? boxOf?)

namespace Ty

def Welcomes (t : Ty) : Prop := t.rep.isPrimitive = true ∨ t.rep = .object ∨ (boxOf? t.rep).isSome = true

theorem referenceRep {t : Ty} (sized : t ≠ .void) (reference : t.isPrimitive = false) : ∃ cls, t.rep = .ref cls := by
  cases t with
  | void => contradiction
  | prim p => contradiction
  | atom n a => cases a <;> exact ⟨_, rfl⟩
  | carrier n c t => cases c <;> exact ⟨_, rfl⟩
  | _ => exact ⟨_, rfl⟩

theorem checkedReferences {target source : Ty} {cls cls' : String} (rep : target.rep = .ref cls) (rep' : source.rep = .ref cls') :
    checkOps? target source = some [.checkCast cls] := by
  unfold checkOps?
  rw [rep, rep']

theorem castMissing {target source : Ty} (sized : target ≠ .void) (sized' : source ≠ .void)
    (missing : castOps? target source = none) : source.isPrimitive = true ∧ ¬ target.Welcomes := by
  unfold castOps? at missing
  split at missing
  · contradiction
  split at missing
  · contradiction
  next object =>
  cases primitive : target.isPrimitive with
  | true =>
    obtain ⟨p, rfl⟩ : ∃ p, target = .prim p := by
      cases target with
      | prim p => exact ⟨p, rfl⟩
      | _ => contradiction
    cases reference : source.isPrimitive with
    | true =>
      cases source with
      | prim q => contradiction
      | _ => contradiction
    | false =>
      obtain ⟨cls, rep⟩ := referenceRep sized' reference
      have boxed : (Ty.boxedOf p).rep = .ref p.boxClass := rfl
      have checks := checkedReferences boxed rep
      split at missing
      · contradiction
      · simp [checks] at missing
  | false =>
    obtain ⟨cls, rep⟩ := referenceRep sized primitive
    have other : ∀ p, target ≠ .prim p := by
      rintro p rfl
      contradiction
    cases reference : source.isPrimitive with
    | true =>
      refine ⟨rfl, ?_⟩
      rintro (is | is | is)
      · rw [rep] at is
        contradiction
      · exact object is
      · cases source with
        | prim q =>
          obtain ⟨box, found⟩ := Option.isSome_iff_exists.1 is
          rw [rep] at missing found
          simp only [Conversion.ops?, Ty.rep, found, Option.map_some] at missing
          contradiction
        | _ => contradiction
    | false =>
      obtain ⟨cls', rep'⟩ := referenceRep sized' reference
      have checks := checkedReferences rep rep'
      split at missing
      · contradiction
      · split at missing
        · exact absurd rfl (other _)
        · rw [checks] at missing
          contradiction

theorem castPrimitive {p : Prim} {source : Ty} (sized : source ≠ .void) : castOps? (.prim p) source ≠ none := by
  intro missing
  have target : Ty.prim p ≠ .void := nofun
  exact (castMissing target sized missing).2 (.inl rfl)

/-! ### Common types -/

theorem Welcomes.same {s t : Ty} (welcomes : s.Welcomes) (rep : s.rep = t.rep) : t.Welcomes := by
  unfold Welcomes at welcomes ⊢
  rwa [← rep]

theorem withNullRep (t : Ty) (n : Bool) : (t.withNull n).rep = t.rep := by
  cases t with
  | atom m a => cases a <;> rfl
  | carrier m c t => cases c <;> rfl
  | _ => rfl

theorem Welcomes.withNull {t : Ty} (welcomes : t.Welcomes) (n : Bool) : (t.withNull n).Welcomes :=
  welcomes.same (withNullRep t n).symm

theorem primitiveWelcomes (p : Prim) : (Ty.prim p).Welcomes ∧ (Ty.boxedOf p).Welcomes := by
  refine ⟨.inl rfl, .inr (.inr ?_)⟩
  cases p <;> rfl

theorem Welcomes.boxed {t : Ty} (welcomes : t.Welcomes) : t.boxed.Welcomes := by
  cases t with
  | prim p => exact (primitiveWelcomes p).2
  | _ => exact welcomes

theorem welcomesAny : Ty.any.Welcomes := .inr (.inl rfl)

theorem numericWelcomes {t : Ty} (numeric : t.kind.isNumeric = true ∨ t.kind = .boolean) : t.Welcomes := by
  cases t with
  | prim p => exact (primitiveWelcomes p).1
  | atom n a =>
    cases a with
    | boxed p => exact (primitiveWelcomes p).2
    | _ => simp [Ty.kind, Kind.isNumeric, Kind.isInteger, Kind.isFloat] at numeric
  | carrier n c t => cases c <;> simp [Ty.kind, Kind.isNumeric, Kind.isInteger, Kind.isFloat] at numeric
  | _ => simp [Ty.kind, Kind.isNumeric, Kind.isInteger, Kind.isFloat] at numeric

theorem joinWelcomes {whole l r : Ty} (one : l.Welcomes ∨ r.Welcomes)
    (composite : l.rep = r.rep → l.kind.isComposite = true → whole.Welcomes) : (join whole l r).Welcomes := by
  simp only [Ty.join]
  split
  · exact welcomesAny
  split
  · next same =>
    have numeric : l.kind.isNumeric = true ∧ r.kind.isNumeric = true := by
      rw [Bool.or_eq_true, Bool.and_eq_true, Bool.and_eq_true] at same
      unfold Kind.isNumeric
      rcases same with ⟨left, right⟩ | ⟨left, right⟩ <;> simp [left, right]
    split
    · exact numericWelcomes (.inl numeric.2)
    · exact numericWelcomes (.inl numeric.1)
  split
  · split
    · exact (primitiveWelcomes .float64).1
    · exact (primitiveWelcomes .float64).2
  split
  · next both => exact numericWelcomes (.inr both.1)
  split
  · next rep =>
    split
    · next is => exact composite rep is
    · exact one.elim id fun right => right.same rep.symm
  · exact welcomesAny

theorem partsWelcome {known : String → Prop} {l : Ty} (left : l.Regular known) (welcomes : l.Welcomes) (r : Ty) :
    (parts l r).Welcomes := by
  cases left with
  | prim => exact welcomesAny
  | atom =>
    unfold parts
    split <;> first | exact welcomes | exact welcomesAny | contradiction
  | list => rcases welcomes with is | is | is <;> simp [Ty.rep, Rep.object] at is <;> contradiction
  | map => rcases welcomes with is | is | is <;> simp [Ty.rep, Rep.object] at is <;> contradiction
  | struct =>
    unfold parts
    split <;> try contradiction
    · split
      · exact welcomes
      · exact welcomesAny
    · exact welcomesAny

theorem unifyWelcomes {known : String → Prop} {l r : Ty} (left : l.Regular known) (one : l.Welcomes ∨ r.Welcomes) :
    (unify l r).Welcomes := by
  rw [unifyIs]
  refine Welcomes.withNull ?_ _
  split
  · exact joinWelcomes one fun rep _ => partsWelcome left (one.elim id fun right => right.same rep.symm) r
  · have boxed : l.boxed.Welcomes ∨ r.boxed.Welcomes := one.imp Welcomes.boxed Welcomes.boxed
    refine joinWelcomes boxed fun rep composite => partsWelcome left ?_ r
    have first : l.boxed.Welcomes := boxed.elim id fun right => right.same rep.symm
    cases l with
    | prim p => exact (primitiveWelcomes p).1
    | _ => exact first

theorem foldWelcomes {known : String → Prop} {ts : List Ty} {t : Ty} (first : t.Regular known) (rest : ∀ u ∈ ts, u.Regular known)
    (one : t.Welcomes ∨ ∃ u ∈ ts, u.Welcomes) : (ts.foldl unify t).Welcomes := by
  induction ts generalizing t with
  | nil =>
    refine one.elim id ?_
    rintro ⟨_, inside, _⟩
    contradiction
  | cons u ts ih =>
    rw [List.forall_mem_cons] at rest
    refine ih (regularHereditary.unify first rest.1) rest.2 ?_
    rcases one with welcomes | ⟨v, inside, welcomes⟩
    · exact .inl (unifyWelcomes first (.inl welcomes))
    · rcases List.mem_cons.1 inside with rfl | later
      · exact .inl (unifyWelcomes first (.inr welcomes))
      · exact .inr ⟨v, later, welcomes⟩

theorem converts {known : String → Prop} {target source : Ty} (regular : target.Regular known) (regular' : source.Regular known)
    (takes : source.Welcomes → target.Welcomes) : castOps? target source ≠ none := by
  intro missing
  obtain ⟨primitive, never⟩ := castMissing regular.sized regular'.sized missing
  refine never (takes ?_)
  cases source with
  | prim p => exact (primitiveWelcomes p).1
  | _ => contradiction

variable {known : String → Prop} {l r t : Ty} {ts : List Ty}

theorem unifyConverts (left : l.Regular known) (right : r.Regular known) :
    castOps? (unify l r) l ≠ none ∧ castOps? (unify l r) r ≠ none := by
  have regular := regularHereditary.unify left right
  exact ⟨converts regular left fun welcomes => unifyWelcomes left (.inl welcomes),
    converts regular right fun welcomes => unifyWelcomes left (.inr welcomes)⟩

theorem foldConverts (first : t.Regular known) (rest : ∀ u ∈ ts, u.Regular known) :
    ∀ u ∈ t :: ts, ∀ n, castOps? ((ts.foldl unify t).withNull n) u ≠ none := by
  intro u inside n
  have regular : u.Regular known := by
    rcases List.mem_cons.1 inside with rfl | later
    · exact first
    · exact rest u later
  refine converts ((regularHereditary.foldl first rest).withNull n) regular fun welcomes => ?_
  refine (foldWelcomes first rest ?_).withNull n
  rcases List.mem_cons.1 inside with rfl | later
  · exact .inl welcomes
  · exact .inr ⟨u, later, welcomes⟩

theorem unifyAllConverts (all : ∀ u ∈ ts, u.Regular known) (is : unifyAll ts = .ok t) (n : Bool) :
    ∀ u ∈ ts, castOps? (t.withNull n) u ≠ none := by
  cases ts with
  | nil => contradiction
  | cons u ts =>
    cases is
    rw [List.forall_mem_cons] at all
    exact fun v inside => foldConverts all.1 all.2 v inside n

theorem unifyOrAnyConverts (all : ∀ u ∈ ts, u.Regular known) : ∀ u ∈ ts, castOps? (unifyOrAny ts) u ≠ none := by
  cases ts with
  | nil => exact nofun
  | cons u ts =>
    rw [List.forall_mem_cons] at all
    intro v inside missing
    have regular : v.Regular known := by
      rcases List.mem_cons.1 inside with rfl | later
      · exact all.1
      · exact all.2 v later
    refine converts (regularHereditary.foldl all.1 all.2) regular (fun welcomes => foldWelcomes all.1 all.2 ?_) missing
    rcases List.mem_cons.1 inside with rfl | later
    · exact .inl welcomes
    · exact .inr ⟨v, later, welcomes⟩

theorem comparisonConverts (left : l.Regular known) (right : r.Regular known) :
    castOps? (Operands.comparison l r) l ≠ none ∧ castOps? (Operands.comparison l r) r ≠ none := by
  unfold Operands.comparison
  dsimp only
  split
  · exact ⟨castPrimitive left.sized, castPrimitive right.sized⟩
  · exact ⟨castPrimitive left.sized, castPrimitive right.sized⟩
  · have regular := (regularHereditary.unify left right).withNull false
    exact ⟨converts regular left fun welcomes => (unifyWelcomes left (.inl welcomes)).withNull false,
      converts regular right fun welcomes => (unifyWelcomes left (.inr welcomes)).withNull false⟩

end Ty

/-! ### Fields of records -/

namespace RecordDraft

variable {known : String → Prop} {laid : List (String × Ty)} {field : String × Expr} {name : String}

def lay (laid : List (String × Ty)) (field : String × Expr) : List (String × Ty) :=
  match position? laid field.1 with
  | some i => laid.modify i fun f => (f.1, Ty.unify f.2 field.2.type)
  | none => laid ++ [(field.1, field.2.type)]

theorem layoutIs (fields : List (String × Expr)) : layout fields = fields.foldl lay [] := rfl

theorem layRegular (first : field.2.type.Regular known) (regular : ∀ f ∈ laid, f.2.Regular known) :
    ∀ f ∈ lay laid field, f.2.Regular known := by
  intro f inside
  unfold lay at inside
  split at inside
  · obtain ⟨i, low, is⟩ := List.mem_iff_getElem.1 inside
    rw [List.getElem_modify] at is
    rw [List.length_modify] at low
    have old : laid[i].2.Regular known := regular _ (List.getElem_mem _)
    split at is
    · rw [← is]
      exact Ty.regularHereditary.unify old first
    · rw [← is]
      exact old
  · rcases List.mem_append.1 inside with old | new
    · exact regular f old
    · rw [List.mem_singleton.1 new]
      exact first

theorem layoutRegular {fields : List (String × Expr)} (all : ∀ f ∈ fields, f.2.type.Regular known) :
    ∀ f ∈ layout fields, f.2.Regular known := by
  have laid : ∀ (fields : List (String × Expr)) start, (∀ f ∈ fields, f.2.type.Regular known) →
      (∀ f ∈ start, f.2.Regular known) → ∀ f ∈ fields.foldl lay start, f.2.Regular known := by
    intro fields
    induction fields with
    | nil => exact fun _ _ regular => regular
    | cons field fields ih =>
      intro start all regular
      rw [List.forall_mem_cons] at all
      exact ih _ all.2 (layRegular all.1 regular)
  exact laid fields [] all nofun

/-- The field for a name is there, and primitives convert to it. -/
def Held (laid : List (String × Ty)) (name : String) : Prop :=
  ∃ g, (position? laid name >>= fun i => laid[i]?) = some g ∧ g.2.Welcomes

theorem positionModify (laid : List (String × Ty)) (i : Nat) (f : Ty → Ty) (name : String) :
    position? (laid.modify i fun p => (p.1, f p.2)) name = position? laid name := by
  have names : ∀ l : List (String × Ty), position? l name =
      (l.map (·.1)).findIdx? fun n => Text.Uppercase.text n == Text.Uppercase.text name := by
    intro l
    rw [List.findIdx?_map]
    rfl
  rw [names, names]
  congr 1
  refine List.ext_getElem? fun j => ?_
  rw [List.getElem?_map, List.getElem?_map, List.getElem?_modify]
  split
  · cases laid[j]? <;> rfl
  · cases laid[j]? <;> rfl

theorem Held.lay (held : Held laid name) (regular : ∀ f ∈ laid, f.2.Regular known) (field : String × Expr) :
    Held (lay laid field) name := by
  obtain ⟨g, is, welcomes⟩ := held
  obtain ⟨j, at_, here⟩ := Option.bind_eq_some_iff.1 is
  unfold RecordDraft.lay
  split
  · next i _ =>
    have kept := (positionModify laid i (Ty.unify · field.2.type) name).trans at_
    unfold Held
    rw [kept]
    simp only [Option.bind_eq_bind, Option.bind_some, List.getElem?_modify, here]
    split
    · exact ⟨_, rfl, Ty.unifyWelcomes (regular g (List.mem_of_getElem? here)) (.inl welcomes)⟩
    · exact ⟨g, rfl, welcomes⟩
  · have low := (List.getElem?_eq_some_iff.1 here).1
    refine ⟨g, ?_, welcomes⟩
    have there : position? (laid ++ [(field.1, field.2.type)]) name = some j := by
      unfold position? at at_ ⊢
      rw [List.findIdx?_append, at_]
      rfl
    simp only [there, Option.bind_eq_bind, Option.bind_some, List.getElem?_append_left low, here]

theorem layHolds (welcomes : field.2.type.Welcomes) (regular : ∀ f ∈ laid, f.2.Regular known) :
    Held (lay laid field) field.1 := by
  unfold lay
  split
  · next i found =>
    have low : i < laid.length := List.findIdx?_eq_some_iff_getElem.1 found |>.1
    have here := List.getElem?_eq_getElem low
    have kept := (positionModify laid i (Ty.unify · field.2.type) field.1).trans found
    unfold Held
    rw [kept]
    simp only [Option.bind_eq_bind, Option.bind_some, List.getElem?_modify, here, if_true]
    exact ⟨_, rfl, Ty.unifyWelcomes (regular _ (List.getElem_mem low)) (.inr welcomes)⟩
  · next missing =>
    have there : position? (laid ++ [(field.1, field.2.type)]) field.1 = some laid.length := by
      unfold position? at missing ⊢
      rw [List.findIdx?_append, missing]
      simp
    refine ⟨(field.1, field.2.type), ?_, welcomes⟩
    simp [there]

theorem layoutConverts {fields : List (String × Expr)} (all : ∀ f ∈ fields, f.2.type.Regular known) :
    ∀ f ∈ fields, ∀ g, (position? (layout fields) f.1 >>= fun i => (layout fields)[i]?) = some g →
      castOps? g.2 f.2.type ≠ none := by
  have holds : ∀ (fields : List (String × Expr)) start, (∀ f ∈ fields, f.2.type.Regular known) →
      (∀ f ∈ start, f.2.Regular known) → ∀ name, Held start name ∨ (∃ f ∈ fields, f.1 = name ∧ f.2.type.Welcomes) →
        Held (fields.foldl lay start) name := by
    intro fields
    induction fields with
    | nil =>
      intro start _ _ name held
      exact held.elim id fun ⟨_, inside, _⟩ => absurd inside List.not_mem_nil
    | cons field fields ih =>
      intro start all regular name held
      rw [List.forall_mem_cons] at all
      refine ih _ all.2 (layRegular all.1 regular) name ?_
      rcases held with held | ⟨f, inside, rfl, welcomes⟩
      · exact .inl (held.lay regular field)
      · rcases List.mem_cons.1 inside with rfl | later
        · exact .inl (layHolds welcomes regular)
        · exact .inr ⟨f, later, rfl, welcomes⟩
  intro f inside g is
  have regular := layoutRegular all g (List.mem_of_getElem? (Option.bind_eq_some_iff.1 is).choose_spec.2)
  refine Ty.converts regular (all f inside) fun welcomes => ?_
  obtain ⟨g', there, welcomes⟩ := holds fields [] all nofun f.1 (.inr ⟨f, inside, rfl, welcomes⟩)
  rw [← layoutIs, is] at there
  exact Option.some.inj there ▸ welcomes

end RecordDraft

end QueryMachine
