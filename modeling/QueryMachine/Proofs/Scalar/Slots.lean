import QueryMachine.Proofs.Scalar.Lower
import QueryMachine.Proofs.Unit.Slots

/-! Slots that formulas take: none, as they hold no value in a local of their own. -/
namespace QueryMachine

open Build (Ends)
open Emit (Takes)

namespace Build

open Emit

def Light (x : Expr) : Prop := Takes 0 x.generate

variable {x y z : Expr}

theorem lightAs (light : Light x) (t : Ty) : Takes 0 (x.generateAs t) := light.then fun _ => takesCast _ _

theorem takesNarrow (p : Prim) : Takes 0 (narrow p) := by
  cases p with
  | int8 | int16 => exact takesOp _
  | _ => exact takesPure _

theorem takesOrNull (p : Prim) (nullable : Bool) (isNull done : Label) : Takes 0 (orNull p nullable isNull done) := by
  cases nullable with
  | true =>
    exact (takesOp _).then fun _ => (takesOp _).then fun _ => (takesMark _).then fun _ => (takesOp _).then fun _ => takesMark _
  | false => exact (takesMark _).then fun _ => takesMark _

theorem takesChoose (first second : Int32) (other done : Label) : Takes 0 (choose first second other done) :=
  (takesOps _).then fun _ => (takesMark _).then fun _ => (takesOp _).then fun _ => takesMark _

theorem takesBranch (light : Light x) (l : Label) : Takes 0 (branchFalse x l) :=
  Takes.then light fun _ => takesIf ((takesCastOrNull _ _ _).then fun _ => takesOp _) (takesTestFalse _ _)

theorem takesOperands (left : Light x) (right : Light y) (t : Ty) (a b c : Label) : Takes 0 (Operands.generateAs t x y a b c) := by
  have last (tested : Bool) : Takes 0 (do
      let drop ← newLabel
      y.generate
      let rightTested ← castOrNull t y.type drop
      if rightTested then
        let done ← newLabel
        jump done
        mark drop
        pop t
        jump b
        mark done
      else mark drop
      return tested || rightTested) := by
    refine takesLabel.then fun drop => Takes.then right fun _ => (takesCastOrNull _ _ _).then fun tested' => ?_
    refine takesIf (takesLabel.then fun _ => (takesOp _).then fun _ => (takesMark _).then fun _ => (takesPop _).then fun _ => ?_) ?_
    · exact (takesOp _).then fun _ => (takesMark _).then fun _ => takesPure _
    · exact (takesMark _).then fun _ => takesPure _
  unfold Operands.generateAs
  refine Takes.then left fun _ => takesIf (takesLabel.then fun l => ?_) ((takesPure _).then fun l => ?_)
  all_goals
    refine (takesCastOrNull _ _ _).then fun tested => takesIf (takesLabel.then fun _ => ?_) ?_
    · refine (takesOp _).then fun _ => (takesMark _).then fun _ => Takes.then right fun _ => (takesOp _).then fun _ => ?_
      exact (takesOp _).then fun _ => (takesMark _).then fun _ => last tested
    · exact takesIf ((takesMark _).then fun _ => last tested) (last tested)

theorem takesOrder (t : Ty) (location : Location) : Takes 0 (order t location) := by
  unfold order
  split <;> exact takesOp _

theorem isNullLight (light : Light x) : Light (isNull x) := by
  refine Takes.then light fun _ => takesIf (takesLabel.then fun _ => takesLabel.then fun _ => (takesOp _).then fun _ => ?_) ?_
  · exact takesChoose _ _ _ _
  · exact (takesPop _).then fun _ => takesOp _

theorem compareLight (left : Light x) (right : Light y) (location : Location) : Light (compare x y location) := by
  refine takesLabel.then fun _ => takesLabel.then fun _ => takesLabel.then fun _ => takesLabel.then fun _ => ?_
  refine (takesOperands left right _ _ _ _).then fun _ => (takesOrder _ _).then fun _ => (takesOp _).then fun _ => ?_
  exact (takesFor fun _ _ => (takesMark _).then fun _ => (takesOp _).then fun _ => takesOp _).then fun _ => takesMark _

theorem orderedLight (left : Light x) (right : Light y) (c : Cond) (location : Location) : Light (ordered c x y location) :=
  takesLabel.then fun _ => takesLabel.then fun _ => (takesOperands left right _ _ _ _).then fun _ => (takesOrder _ _).then fun _ =>
    (takesOp _).then fun _ => takesChoose _ _ _ _

theorem equalityLight (left : Light x) (right : Light y) (negated : Bool) : Light (equality x y negated) := by
  refine takesLabel.then fun _ => takesLabel.then fun _ => (takesOperands left right _ _ _ _).then fun _ => ?_
  generalize Operands.comparison x.type y.type = t
  cases t with
  | prim p => exact (takesOps _).then fun _ => takesChoose _ _ _ _
  | _ => exact (takesOps _).then fun _ => takesChoose _ _ _ _

def Spares {α : Type} (P : α → Prop) (x : Build α) : Prop :=
  ∀ s, Ends x s (fun _ s' => s'.frames = s.frames) fun v s' => P v ∧ s'.frames = s.frames

section

variable {α β : Type} {P : α → Prop} {R : β → Prop}

theorem sparesPure {v : α} (is : P v) : Spares P (pure v) := fun _ => ⟨is, rfl⟩

theorem sparesFail (c : Cause) : Spares P (fail c) := fun _ => rfl

theorem sparesLift (r : Except Error α) : Spares (fun _ => True) (lift r) := by
  cases r with
  | ok v => exact sparesPure trivial
  | error err => exact fun _ => rfl

theorem Spares.then {a : Build α} {f : α → Build β} (first : Spares P a) (second : ∀ v, P v → Spares R (f v)) :
    Spares R (a >>= f) := by
  intro s
  rw [Build.endsBind]
  refine (first s).mono ?_ fun _ _ same => same
  rintro v s' ⟨is, same⟩
  exact (second v is s').mono (fun _ _ made => ⟨made.1, made.2.trans same⟩) fun _ _ later => later.trans same

theorem sparesLocated (location : Location) {l : Lowering} {env : Lowering.Env} {P : Expr → Prop} (spares : Spares P (l env)) :
    Spares P (Lowering.located location l env) := by
  unfold Lowering.located
  split
  · exact spares
  · intro s
    have ends := spares s
    unfold Ends at ends ⊢
    rw [Account.tryLocated]
    rcases answer : l env s with ⟨err | v, s'⟩ <;>
    · rw [answer] at ends
      exact ends

theorem sparesTruth (t : Ty) : Spares (fun _ => True) (checkTruth t) := by
  unfold checkTruth
  split
  · exact sparesPure trivial
  · exact sparesFail _

theorem sparesTruths (es : List Expr) : Spares (fun _ => True) (es.forM fun e => checkTruth e.type) := by
  induction es with
  | nil => exact sparesPure trivial
  | cons e es ih => exact (sparesTruth e.type).then fun _ _ => ih

end

theorem constantSpares (v : Value) : Spares Light (Build.constant v) := by
  intro s
  have made : Light (s.constants.literal s.heap v).1 := by
    have hoisted (t : Ty) : Light (s.constants.hoist s.heap t v).1 := by
      unfold Constants.hoist
      split <;> exact takesOp _
    unfold Constants.literal
    cases v <;> first | exact takesOp _ | exact hoisted _
  exact ⟨made, rfl⟩

theorem arithmeticSpares (left : Light x) (right : Light y) (a : Arith) : Spares Light (arithmetic a x y) := by
  unfold arithmetic
  split
  · exact sparesFail _
  · refine sparesPure (takesLabel.then fun _ => takesLabel.then fun _ => (takesOperands left right _ _ _ _).then fun _ => ?_)
    exact (takesOp _).then fun _ => (takesNarrow _).then fun _ => takesOrNull _ _ _ _

theorem negateSpares (light : Light x) : Spares Light (negate x) := by
  unfold negate
  split
  · exact sparesFail _
  · refine sparesPure (takesLabel.then fun _ => takesLabel.then fun _ => Takes.then light fun _ => ?_)
    exact (takesCastOrNull _ _ _).then fun _ => (takesOp _).then fun _ => (takesNarrow _).then fun _ => takesOrNull _ _ _ _

theorem notSpares (light : Light x) : Spares Light (not x) :=
  (sparesTruth x.type).then fun _ _ => sparesPure (takesLabel.then fun _ => takesLabel.then fun _ =>
    (takesBranch light _).then fun _ => takesChoose _ _ _ _)

theorem andSpares {es : List Expr} (light : ∀ e ∈ es, Light e) : Spares Light (and es) := by
  unfold and
  split
  · exact sparesFail _
  · refine (sparesTruths es).then fun _ _ => sparesPure (takesLabel.then fun f => takesLabel.then fun _ => ?_)
    exact (takesFor fun e inside => takesBranch (light e inside) f).then fun _ => takesChoose _ _ _ _

theorem orSpares {es : List Expr} (light : ∀ e ∈ es, Light e) : Spares Light (or es) := by
  unfold or
  split
  · exact sparesFail _
  · refine (sparesTruths es).then fun _ _ => sparesPure (takesLabel.then fun t => takesLabel.then fun _ => ?_)
    refine (takesFor fun e inside => takesLabel.then fun next => (takesBranch (light e inside) next).then fun _ => ?_).then fun _ => ?_
    · exact (takesOp _).then fun _ => takesMark _
    · exact takesChoose _ _ _ _

theorem selectSpares (test : Light x) (yes : Light y) (no : Light z) : Spares Light (select [(x, y)] z) := by
  refine (sparesLift _).then fun t _ => sparesPure (takesLabel.then fun done => ?_)
  refine Takes.then (takesFor ?_) fun _ => (lightAs no _).then fun _ => takesMark _
  simp only [List.mem_singleton, forall_eq]
  exact takesLabel.then fun next => (takesBranch test next).then fun _ => (lightAs yes _).then fun _ => (takesOp _).then fun _ =>
    takesMark _

theorem coalesceSpares {es : List Expr} (light : ∀ e ∈ es, Light e) : Spares Light (coalesce es) := by
  have kept : ∀ e ∈ upToPresent es, Light e := fun e inside => light e (upToPresentSubset es inside)
  unfold coalesce
  dsimp only
  generalize upToPresent es = es at kept
  split
  · exact sparesFail _
  · next e => exact sparesPure (kept e List.mem_cons_self)
  · refine (sparesLift _).then fun t _ => sparesPure (takesLabel.then fun done => ?_)
    refine Takes.then (takesFor fun e inside => takesLabel.then fun next => Takes.then (kept e inside) fun _ => ?_) fun _ => ?_
    · exact (takesCastOrNull _ _ _).then fun _ => (takesOp _).then fun _ => takesMark _
    · exact takesIf ((takesOp _).then fun _ => takesMark _) (takesMark _)

end Build
namespace Formula

open Build

variable {params : List (String × ValueType)} {joins : List Scalar → Prop} {env : Lowering.Env}

theorem argumentSpares (name : String) (env : Lowering.Env) : Spares Light (Lowering.argumentNamed name env) := by
  unfold Lowering.argumentNamed
  split
  · exact sparesPure (Emit.takesRead _)
  · exact sparesFail _

theorem relationLight {x y : Expr} (left : Light x) (right : Light y) (c : Cond) (location : Location) :
    Light (c.build location x y) := by
  cases c with
  | eq => exact equalityLight left right false
  | ne => exact equalityLight left right true
  | _ => exact orderedLight left right _ location

theorem scalarSpares {c : ContextId} {t : ValueType} (whole : t.scalar?.isSome) : Spares (fun _ => True) (Resolve.value c t) := by
  unfold ValueType.scalar? at whole
  split at whole
  · rw [Resolve.value]
    exact sparesPure trivial
  · rw [Resolve.value]
    · intro s
      rw [Build.endsBind, Build.endsGet]
      cases s.types.value? c (.optional (.scalar _)) with
      | some type => exact ⟨trivial, rfl⟩
      | none =>
        dsimp only
        rw [Resolve.value]
        exact ⟨trivial, rfl⟩
    · exact nofun
  · contradiction

mutual

theorem nodeSpares (f : Formula) (fits : f.Fits params joins) (env : Lowering.Env) : Spares Light (Lowering.ofNode f.node env) := by
  match f with
  | literal v location =>
    rw [node]
    exact sparesLocated location (constantSpares v)
  | null t location =>
    rw [Fits] at fits
    rw [node]
    refine sparesLocated location ?_
    refine (Spares.then (scalarSpares fits) fun type _ => sparesPure (P := fun _ => True) trivial).then fun type _ => ?_
    exact sparesPure (Emit.takesOp _)
  | argument name location =>
    rw [node]
    exact sparesLocated location (argumentSpares name env)
  | arith a left right location =>
    have same : Lowering.ofNode (arith a left right location).node env = Lowering.located location (fun env => do
        let x ← Lowering.ofNode left.node env
        let y ← Lowering.ofNode right.node env
        arithmetic a x y) env := by
      rw [node]
      cases a <;> rfl
    rw [same]
    rw [Fits] at fits
    refine sparesLocated location ((nodeSpares left fits.1 env).then fun x first => ?_)
    exact (nodeSpares right fits.2 env).then fun y second => arithmeticSpares first second a
  | negate x location =>
    rw [node]
    rw [Fits] at fits
    exact sparesLocated location ((nodeSpares x fits env).then fun x light => negateSpares light)
  | not x location =>
    rw [node]
    rw [Fits] at fits
    exact sparesLocated location ((nodeSpares x fits env).then fun x light => notSpares light)
  | and xs location =>
    rw [node]
    rw [Fits] at fits
    exact sparesLocated location ((nodesSpare xs fits env).then fun es light => andSpares light)
  | or xs location =>
    rw [node]
    rw [Fits] at fits
    exact sparesLocated location ((nodesSpare xs fits env).then fun es light => orSpares light)
  | relation c left right location =>
    have same : Lowering.ofNode (relation c left right location).node env = Lowering.located location (fun env => do
        let x ← Lowering.ofNode left.node env
        let y ← Lowering.ofNode right.node env
        return c.build location x y) env := by
      rw [node]
      cases c <;> rfl
    rw [same]
    rw [Fits] at fits
    refine sparesLocated location ((nodeSpares left fits.1 env).then fun x first => ?_)
    exact (nodeSpares right fits.2.1 env).then fun y second => sparesPure (relationLight first second c location)
  | compare left right location =>
    rw [node]
    rw [Fits] at fits
    refine sparesLocated location ((nodeSpares left fits.1 env).then fun x first => ?_)
    exact (nodeSpares right fits.2.1 env).then fun y second => sparesPure (compareLight first second location)
  | isNull x location =>
    rw [node]
    rw [Fits] at fits
    exact sparesLocated location ((nodeSpares x fits env).then fun x light => sparesPure (isNullLight light))
  | cond test yes no location =>
    rw [node]
    rw [Fits] at fits
    refine sparesLocated location ((nodeSpares test fits.1 env).then fun x first => ?_)
    refine (nodeSpares yes fits.2.1 env).then fun y second => ?_
    exact (nodeSpares no fits.2.2.1 env).then fun z third => selectSpares first second third
  | coalesce xs location =>
    rw [node]
    rw [Fits] at fits
    exact sparesLocated location ((nodesSpare xs fits.1 env).then fun es light => coalesceSpares light)
termination_by sizeOf f

theorem nodesSpare (xs : List Formula) (fits : FitAll params joins xs) (env : Lowering.Env) :
    Spares (fun es => ∀ e ∈ es, Light e) ((Lowering.ofNodes (nodes xs)).mapM (· env)) := by
  cases xs with
  | nil =>
    rw [nodes]
    exact sparesPure (List.forall_mem_nil _)
  | cons x xs =>
    rw [FitAll] at fits
    rw [nodes, Lowering.ofNodes, List.mapM_cons]
    refine (nodeSpares x fits.1 env).then fun e first => ?_
    exact (nodesSpare xs fits.2 env).then fun es rest => sparesPure (List.forall_mem_cons.2 ⟨first, rest⟩)
termination_by sizeOf xs

end

end Formula

end QueryMachine
