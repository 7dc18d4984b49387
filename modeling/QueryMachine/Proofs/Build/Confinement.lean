import QueryMachine.Build.Arithmetic
import QueryMachine.Build.Collection
import QueryMachine.Build.Comparison
import QueryMachine.Build.Loop
import QueryMachine.Build.Record
import QueryMachine.Build.Switch
import QueryMachine.Proofs.Build.Record
import QueryMachine.Proofs.Code.Relocation

/-! What builders emit of confined operands is confined, and does not depend on where its labels start. -/
namespace QueryMachine

open Emit

def Seq.Confined (host : String) (x : Emit Unit) : Prop := ∀ before, Floats host False before x

def Expr.Confined (host : String) (x : Expr) : Prop := Seq.Confined host x.generate

variable {host : String} {before : Array (Option Nat)} {x y : Expr}

abbrev Leads {α : Type} (host : String) (before : Array (Option Nat)) (f : Label → Emit α) : Prop :=
  ∀ l, Moves host False before Eq (f l) (f (l + before.size))

theorem literalConfined (v : Value) (t : Ty) : (Expr.literal v t).Confined host := fun _ => opFloats (by trivial) rfl

theorem nullConfined (t : Ty) : (Expr.null t).Confined host := fun _ => opFloats (by trivial) rfl

theorem asConfined (confined : x.Confined host) (t : Ty) : Seq.Confined host (x.generateAs t) :=
  fun before => (confined before).andThen fun _ => castFloats t x.type

theorem castConfined (confined : x.Confined host) (t : Ty) : (x.cast t).Confined host := by
  unfold Expr.cast
  split
  · exact confined
  · exact asConfined confined t

theorem readConfined (l : Local) : l.read.Confined host :=
  fun _ => (slotFloats l).andThen fun _ => loadFloats _ _

theorem writeConfined (confined : x.Confined host) (l : Local) : Seq.Confined host (l.write x) :=
  fun before => (asConfined confined l.type before).andThen fun _ => (slotFloats l).andThen fun _ => storeFloats _ _

namespace Build

/-! ### Logic -/

theorem branchLeads (confined : x.Confined host) : Leads host before (branchFalse x) := by
  intro l
  refine (confined before).andThen fun _ => ?_
  cases x.type.isAny with
  | true => exact (castOrNullMoves _ _ l).andThen fun _ => movesOp (o := .ifZero .eq l) trivial
  | false => exact testFalseMoves _ l

theorem chooseMoves (first second : Int32) (other done : Label) :
    Moves host False before Eq (choose first second other done)
      (choose first second (other + before.size) (done + before.size)) := by
  refine (movesOps [.const (.int first), .jump done] (by simp [Op.Confined])).andThen fun _ => ?_
  exact (movesMark other).andThen fun _ => (opFloats (by trivial) rfl).andThen fun _ => movesMark done

theorem truthConfined {first second : Int32} {test : Label → Emit Unit} (leads : Leads host before test) :
    Floats host False before (do
      let f ← newLabel
      let done ← newLabel
      test f
      choose first second f done) :=
  movesLabel fun f => movesLabel fun done => (leads f).andThen fun _ => chooseMoves first second f done

theorem isNullConfined (confined : x.Confined host) : (Build.isNull x).Confined host := by
  intro before
  refine (confined before).andThen fun _ => ?_
  cases x.type.isNullable with
  | true =>
    refine movesLabel fun t => movesLabel fun done => ?_
    exact (movesOp (o := .ifNull t) trivial).andThen fun _ => chooseMoves 0 1 t done
  | false => exact (popFloats x.type).andThen fun _ => opFloats (by trivial) rfl

theorem andConfined {es : List Expr} (confined : ∀ e ∈ es, e.Confined host) (type : Ty) : Expr.Confined host ⟨type, do
    let f ← newLabel
    let done ← newLabel
    es.forM (branchFalse · f)
    choose 1 0 f done⟩ :=
  fun _ => truthConfined fun f => forMMoves fun e inside => branchLeads (confined e inside) f

theorem orConfined {es : List Expr} (confined : ∀ e ∈ es, e.Confined host) (type : Ty) : Expr.Confined host ⟨type, do
    let t ← newLabel
    let done ← newLabel
    es.forM fun e => do
      let next ← newLabel
      branchFalse e next
      jump t
      mark next
    choose 0 1 t done⟩ :=
  fun _ => truthConfined fun t => forMMoves fun e inside => movesLabel fun next =>
    (branchLeads (confined e inside) next).andThen fun _ => (movesJump t).andThen fun _ => movesMark next

theorem coalesceConfined {es : List Expr} (confined : ∀ e ∈ es, e.Confined host) (type : Ty) (terminal : Bool) :
    Expr.Confined host ⟨type, do
      let done ← newLabel
      es.forM fun e => do
        let next ← newLabel
        e.generate
        let _ ← castOrNull type e.type next
        jump done
        mark next
      if !terminal then op .constNull
      mark done⟩ := by
  intro before
  refine movesLabel fun done => Moves.andThen (forMMoves fun e inside => ?_) fun _ => ?_
  · refine movesLabel fun next => (confined e inside before).andThen fun _ => ?_
    exact (castOrNullMoves _ _ next).andThen fun _ => (movesJump done).andThen fun _ => movesMark next
  · cases terminal with
    | true => exact movesMark done
    | false => exact (opFloats (by trivial) rfl).andThen fun _ => movesMark done

theorem selectConfined {arms : List (Expr × Expr)} {default : Expr}
    (confined : ∀ a ∈ arms, a.1.Confined host ∧ a.2.Confined host) (last : default.Confined host) (type : Ty) :
    Expr.Confined host ⟨type, do
      let done ← newLabel
      arms.forM fun (test, value) => do
        let next ← newLabel
        branchFalse test next
        value.generateAs type
        jump done
        mark next
      default.generateAs type
      mark done⟩ := by
  intro before
  refine movesLabel fun done => Moves.andThen (forMMoves fun a inside => movesLabel fun next => ?_) fun _ => ?_
  · obtain ⟨test, value⟩ := confined a inside
    refine (branchLeads test next).andThen fun _ => (asConfined value type before).andThen fun _ => ?_
    exact (movesJump done).andThen fun _ => movesMark next
  · exact (asConfined last type before).andThen fun _ => movesMark done

theorem guardedConfined {target present : Expr} (confined : target.Confined host) (inner : present.Confined host)
    (held : Local) (type : Ty) : Expr.Confined host ⟨type, do
      let isNull ← newLabel
      let done ← newLabel
      target.generate
      let _ ← nullTest target.type isNull
      store (← slotOf held) held.type.width
      present.generateAs type
      jump done
      mark isNull
      op .constNull
      mark done⟩ := by
  intro before
  refine movesLabel fun isNull => movesLabel fun done => (confined before).andThen fun _ => ?_
  refine (nullTestMoves _ isNull).andThen fun _ => (slotFloats held).andThen fun _ => (storeFloats _ _).andThen fun _ => ?_
  refine (asConfined inner type before).andThen fun _ => (movesJump done).andThen fun _ => ?_
  exact (movesMark isNull).andThen fun _ => (opFloats (by trivial) rfl).andThen fun _ => movesMark done

/-! ### Operands -/

theorem rightMoves (right : y.Confined host) (type : Ty) (leftTested : Bool) (r : Label) :
    Moves host False before Eq
      (do
        let drop ← newLabel
        y.generate
        let rightTested ← castOrNull type y.type drop
        if rightTested then
          let done ← newLabel
          jump done
          mark drop
          pop type
          jump r
          mark done
        else mark drop
        return leftTested || rightTested)
      (do
        let drop ← newLabel
        y.generate
        let rightTested ← castOrNull type y.type drop
        if rightTested then
          let done ← newLabel
          jump done
          mark drop
          pop type
          jump (r + before.size)
          mark done
        else mark drop
        return leftTested || rightTested) := by
  refine movesLabel fun drop => (right before).andThen fun _ => (castOrNullMoves _ _ drop).andThen fun tested => ?_
  cases tested with
  | true =>
    refine movesLabel fun done => (movesJump done).andThen fun _ => (movesMark drop).andThen fun _ => ?_
    refine (popFloats type).andThen fun _ => (movesJump r).andThen fun _ => ?_
    exact (movesMark done).andThen fun _ => movesPure rfl
  | false => exact (movesMark drop).andThen fun _ => movesPure rfl

theorem operandsMove (left : x.Confined host) (right : y.Confined host) (type : Ty) (l r b : Label) :
    Moves host False before Eq (Operands.generateAs type x y l r b)
      (Operands.generateAs type x y (l + before.size) (r + before.size) (b + before.size)) := by
  have same : (l + before.size != b + before.size) = (l != b) := by
    rw [Bool.eq_iff_iff]
    simp
  unfold Operands.generateAs
  rw [same]
  refine (left before).andThen fun _ => ?_
  cases (l != b && y.type.isNullable) with
  | false =>
    refine (castOrNullMoves _ _ l).andThen fun tested => ?_
    cases tested <;> exact rightMoves right type _ r
  | true =>
    refine movesLabel fun leftIsNull => (castOrNullMoves _ _ leftIsNull).andThen fun tested => ?_
    cases tested with
    | false => exact (movesMark leftIsNull).andThen fun _ => rightMoves right type _ r
    | true =>
      refine movesLabel fun skip => (movesJump skip).andThen fun _ => (movesMark leftIsNull).andThen fun _ => ?_
      refine (right before).andThen fun _ => (movesOp (o := .ifNull b) trivial).andThen fun _ => ?_
      exact (movesJump l).andThen fun _ => (movesMark skip).andThen fun _ => rightMoves right type _ r

/-! ### Arithmetic and comparison -/

theorem narrowFloats (p : Prim) : Floats host False before (narrow p) := by
  unfold narrow
  split
  · exact opFloats trivial rfl
  · exact opFloats trivial rfl
  · exact movesPure rfl

theorem orNullMoves (p : Prim) (nullable : Bool) (isNull done : Label) :
    Moves host False before Eq (orNull p nullable isNull done)
      (orNull p nullable (isNull + before.size) (done + before.size)) := by
  cases nullable with
  | false => exact (movesMark isNull).andThen fun _ => movesMark done
  | true =>
    refine (opFloats (by trivial) rfl).andThen fun _ => (movesJump done).andThen fun _ => ?_
    exact (movesMark isNull).andThen fun _ => (opFloats (by trivial) rfl).andThen fun _ => movesMark done

theorem arithmeticConfined (left : x.Confined host) (right : y.Confined host) (a : Arith) (p : Prim) (nullable : Bool)
    (type : Ty) : Expr.Confined host ⟨type, do
      let isNull ← newLabel
      let done ← newLabel
      let _ ← Operands.generateAs (.prim p) x y isNull isNull isNull
      op (.arith a p.num)
      narrow p
      orNull p nullable isNull done⟩ := by
  intro before
  refine movesLabel fun isNull => movesLabel fun done => (operandsMove left right _ isNull isNull isNull).andThen fun _ => ?_
  exact (opFloats (by trivial) rfl).andThen fun _ => (narrowFloats p).andThen fun _ => orNullMoves p nullable isNull done

theorem negateConfined (confined : x.Confined host) (p : Prim) (type : Ty) : Expr.Confined host ⟨type, do
    let isNull ← newLabel
    let done ← newLabel
    x.generate
    let _ ← castOrNull (.prim p) x.type isNull
    op (.neg p.num)
    narrow p
    orNull p x.type.isNullable isNull done⟩ := by
  intro before
  refine movesLabel fun isNull => movesLabel fun done => (confined before).andThen fun _ => ?_
  refine (castOrNullMoves _ _ isNull).andThen fun _ => (opFloats (by trivial) rfl).andThen fun _ => ?_
  exact (narrowFloats p).andThen fun _ => orNullMoves p _ isNull done

theorem orderFloats (type : Ty) (location : Location) : Floats host False before (order type location) := by
  unfold order
  split <;> exact opFloats trivial rfl

theorem compareConfined (left : x.Confined host) (right : y.Confined host) (location : Location) :
    (Build.compare x y location).Confined host := by
  intro before
  refine movesLabel fun leftNull => movesLabel fun rightNull => movesLabel fun bothNull => movesLabel fun done => ?_
  refine (operandsMove left right _ leftNull rightNull bothNull).andThen fun _ => ?_
  refine (orderFloats _ location).andThen fun _ => (movesJump done).andThen fun _ => ?_
  have ranked (l : Label) (rank : Int32) : Moves host False before Eq
      (do
        mark l
        op (.const (.int rank))
        jump done)
      (do
        mark (l + before.size)
        op (.const (.int rank))
        jump (done + before.size)) :=
    (movesMark l).andThen fun _ => (opFloats (by trivial) rfl).andThen fun _ => movesJump done
  refine Moves.andThen (forMRelated ?_) fun _ => movesMark done
  exact .cons (ranked leftNull (-1)) (.cons (ranked rightNull 1) (.cons (ranked bothNull 0) .nil))

theorem orderedConfined (left : x.Confined host) (right : y.Confined host) (c : Cond) (location : Location) :
    (Build.ordered c x y location).Confined host := by
  intro before
  refine movesLabel fun f => movesLabel fun done => (operandsMove left right _ f f f).andThen fun _ => ?_
  refine (orderFloats _ location).andThen fun _ => ?_
  exact (movesOp (o := .ifZero c.negate f) trivial).andThen fun _ => chooseMoves 1 0 f done

theorem equalityConfined (left : x.Confined host) (right : y.Confined host) (negated : Bool) :
    (Build.equality x y negated).Confined host := by
  intro before
  refine movesLabel fun f => movesLabel fun done => (operandsMove left right _ f f f).andThen fun _ => ?_
  have tested (o : Op) (confined : o.Confined host False) (plain : o.targets = []) (c : Cond) : Moves host False before Eq
      (do
        ops [o, .ifZero c f]
        choose 1 0 f done)
      (do
        ops [o, .ifZero c (f + before.size)]
        choose 1 0 (f + before.size) (done + before.size)) := by
    have both : Moves host False before Eq (ops [o, .ifZero c f]) (ops ([o, .ifZero c f].map (Op.relabel (· + before.size)))) :=
      movesOps _ (List.forall_mem_cons.2 ⟨confined, by simp [Op.Confined]⟩)
    rw [List.map_cons, relabelPlain plain] at both
    exact both.andThen fun _ => chooseMoves 1 0 f done
  cases Operands.comparison x.type y.type with
  | prim p => exact tested (.cmp p.num) trivial rfl _
  | _ => exact tested (.native .objectEquals) trivial rfl _

/-! ### Collections -/

theorem elementConfined (confined : x.Confined host) (elem : Ty) : Seq.Confined host (generateElement elem x) :=
  fun before => (asConfined confined elem before).andThen fun _ => boxFloats elem

theorem listConfined {es : List Expr} (confined : ∀ e ∈ es, e.Confined host) : (Build.list es).Confined host := by
  intro before
  refine (opFloats (by trivial) rfl).andThen fun _ => forMMoves fun e inside => (opFloats (by trivial) rfl).andThen fun _ => ?_
  exact (elementConfined (confined e inside) _ before).andThen fun _ => opFloats trivial rfl

theorem mapConfined {es : List (Expr × Expr)} (confined : ∀ e ∈ es, e.1.Confined host ∧ e.2.Confined host) :
    (Build.map es).Confined host := by
  intro before
  refine (opFloats (by trivial) rfl).andThen fun _ => forMMoves fun e inside => (opFloats (by trivial) rfl).andThen fun _ => ?_
  refine (elementConfined (confined e inside).1 _ before).andThen fun _ => ?_
  exact (elementConfined (confined e inside).2 _ before).andThen fun _ => opFloats trivial rfl

theorem followedConfined (confined : x.Confined host) {o : Op} (allowed : o.Confined host False) (plain : o.targets = [])
    (type : Ty) : Expr.Confined host ⟨type, do
      x.generate
      op o⟩ :=
  fun before => (confined before).andThen fun _ => opFloats allowed plain

end Build

/-! ### Records -/

namespace RecordDraft

theorem skipNullMoves (type : Ty) (width : Nat) (next : Label) :
    Moves host False before Eq (skipNull type width next) (skipNull type width (next + before.size)) := by
  unfold skipNull
  cases type.isNullable with
  | false => exact movesPure rfl
  | true =>
    refine movesLabel fun put => ?_
    refine (movesOps [.dup 1, .ifNonNull put, .pop width, .jump next] (by simp [Op.Confined])).andThen fun _ => ?_
    exact movesMark put

theorem putFieldFloats (confined : x.Confined host) (cls : String) (layout : List (String × Ty)) (object : Nat)
    (name : String) : Floats host False before (putField cls layout object name x) := by
  unfold putField
  cases position? layout name >>= fun i => layout[i]? with
  | none => exact movesPure rfl
  | some field =>
    refine movesLabel fun next => (opFloats (by trivial) rfl).andThen fun _ => (confined before).andThen fun _ => ?_
    refine (skipNullMoves _ 2 next).andThen fun _ => (castFloats _ _).andThen fun _ => ?_
    exact (opFloats (by trivial) rfl).andThen fun _ => movesMark next

theorem closedConfined {fields : List (String × Expr)} (confined : ∀ f ∈ fields, f.2.Confined host) {cls : String}
    (other : cls ≠ host) (frame : FrameId) (object : Local) (layout : List (String × Ty)) (type : Ty) :
    Expr.Confined host ⟨type, do
      enterFrame frame
      List.forM [] id
      let slot ← slotOf object
      ops [.new cls, .store slot]
      fields.forM fun (name, value) => putField cls layout slot name value
      op (.load slot)
      exitFrame frame⟩ := by
  intro before
  refine (enterFloats frame).andThen fun _ => (movesPure rfl).andThen fun _ => (slotFloats object).andThen fun slot => ?_
  refine (opsFloat (by simp [Op.Confined, Op.targets, other])).andThen fun _ => ?_
  refine (forMMoves fun f inside => putFieldFloats (confined f inside) _ _ _ _).andThen fun _ => ?_
  exact (opFloats (by trivial) rfl).andThen fun _ => exitFloats frame

theorem entryConfined (confined : x.Confined host) (record : Local) (name : String) :
    Seq.Confined host (entryCode record name x) := by
  intro before
  refine movesLabel fun next => (slotFloats record).andThen fun slot => (opFloats (by trivial) rfl).andThen fun _ => ?_
  refine (opFloats (by trivial) rfl).andThen fun _ => (confined before).andThen fun _ => (boxFloats _).andThen fun _ => ?_
  exact (skipNullMoves _ 3 next).andThen fun _ => (opFloats (by trivial) rfl).andThen fun _ => movesMark next

theorem openConfined {codes : List Seq} (confined : ∀ c ∈ codes, Seq.Confined host c) (frame : FrameId) (record : Local)
    (type : Ty) : Expr.Confined host ⟨type, do
      enterFrame frame
      List.forM [] id
      let slot ← slotOf record
      ops [.native .newRecord, .store slot]
      codes.forM id
      op (.load slot)
      exitFrame frame⟩ := by
  intro before
  refine (enterFloats frame).andThen fun _ => (movesPure rfl).andThen fun _ => (slotFloats record).andThen fun slot => ?_
  refine (opsFloat (by simp [Op.Confined, Op.targets])).andThen fun _ => ?_
  refine (forMMoves fun c inside => confined c inside before).andThen fun _ => ?_
  exact (opFloats (by trivial) rfl).andThen fun _ => exitFloats frame

end RecordDraft

/-! ### Loops -/

namespace Loop

def Item.Confined (host : String) : Item → Prop
  | .exec s => Seq.Confined host s
  | .stop test | .skip test => test.Confined host

theorem itemMoves {item : Item} (confined : item.Confined host) (exit advance : Label) :
    Moves host False before Eq (generateItem exit advance item)
      (generateItem (exit + before.size) (advance + before.size) item) := by
  have branch {test : Expr} (confined : test.Confined host) : Leads host before (branchTrue test) := fun target =>
    movesLabel fun stay => (Build.branchLeads confined stay).andThen fun _ => (movesJump target).andThen fun _ => movesMark stay
  cases item with
  | exec s => exact confined before
  | stop test => exact branch confined exit
  | skip test => exact branch confined advance

theorem loopConfined {l : Loop} (source : l.iterable.Confined host) (list : l.list.Confined host)
    (items : ∀ i ∈ l.items, i.Confined host) : Seq.Confined host l.build := by
  intro before
  refine (enterFloats l.frame).andThen fun _ => movesLabel fun top => movesLabel fun advance => movesLabel fun exit => ?_
  refine (source before).andThen fun _ => (nullTestMoves _ exit).andThen fun _ => (slotFloats l.source).andThen fun _ => ?_
  refine (opFloats (by trivial) rfl).andThen fun _ => (list before).andThen fun _ => (slotFloats l.view).andThen fun view => ?_
  refine (slotFloats l.index).andThen fun index => (slotFloats l.item).andThen fun item => ?_
  refine (opsFloat (by simp [Op.Confined, Op.targets])).andThen fun _ => (movesMark top).andThen fun _ => ?_
  refine (movesOps [.load index, .load view, .native .length, .ifCmp .ge exit, .load view, .load index,
    .native .listGet] (by simp [Op.Confined])).andThen fun _ => ?_
  refine (downcastFloats _).andThen fun _ => (opFloats (by trivial) rfl).andThen fun _ => ?_
  refine (forMMoves fun i inside => itemMoves (items i inside) exit advance).andThen fun _ => (movesMark advance).andThen fun _ => ?_
  refine (movesOps [.load index, .const (.int 1), .arith .add .int, .store index, .jump top]
    (by simp [Op.Confined])).andThen fun _ => ?_
  exact (movesMark exit).andThen fun _ => exitFloats l.frame

end Loop

namespace Scope

def Item.Confined (host : String) : Item → Prop
  | .exec s => Seq.Confined host s
  | .exit test result => test.Confined host ∧ result.Confined host

theorem valueConfined {items : List Item} (confined : ∀ i ∈ items, i.Confined host) {result : Expr}
    (last : result.Confined host) (frame : FrameId) (type : Ty) : Expr.Confined host ⟨type, do
      let done ← newLabel
      enterFrame frame
      items.forM (generateItem type done)
      result.generateAs type
      mark done
      exitFrame frame⟩ := by
  intro before
  refine movesLabel fun done => (enterFloats frame).andThen fun _ => Moves.andThen (forMMoves fun i inside => ?_) fun _ => ?_
  · have isConfined := confined i inside
    cases i with
    | exec s => exact isConfined before
    | exit test value =>
      refine movesLabel fun next => (Build.branchLeads isConfined.1 next).andThen fun _ => ?_
      refine (asConfined isConfined.2 type before).andThen fun _ => (movesJump done).andThen fun _ => movesMark next
  · exact (asConfined last type before).andThen fun _ => (movesMark done).andThen fun _ => exitFloats frame

end Scope

end QueryMachine
