import QueryMachine.Proofs.Build.Confinement
import QueryMachine.Proofs.Program.Tree
import QueryMachine.Proofs.Program.Compile

/-! Lowered trees are confined: their code stays in its method, and neither they nor the units of struct types call
methods of the program's own unit. -/
namespace QueryMachine

open Build (Ends)
open Emit

def MethodDraft.Confined (m : MethodDraft) : Prop := ∀ body, m.body = some body → Keeps Compiler.unitName True body

structure Session.Confined (s : Session) : Prop where
  units : ∀ u ∈ s.units, ∀ m ∈ u.methods, m.Confined
  structs : ∀ p ∈ s.structs, ∀ cls, p.2.rep.className? = some cls → cls ≠ Compiler.unitName

def Makes {α : Type} (P : α → Prop) (x : Build α) : Prop :=
  ∀ s : Session, s.Confined → Ends x s (fun _ s' => s'.Confined) fun v s' => P v ∧ s'.Confined

section Rules

variable {α β : Type} {P : α → Prop} {R : β → Prop} {x : Build α}

theorem makesPure {v : α} (is : P v) : Makes P (pure v) := fun _ confined => ⟨is, confined⟩

theorem makesFail (c : Cause) : Makes P (Build.fail c) := fun _ confined => confined

theorem Makes.bind {f : α → Build β} (first : Makes P x) (second : ∀ v, P v → Makes R (f v)) : Makes R (x >>= f) := by
  intro s confined
  rw [Build.endsBind]
  exact (first s confined).mono (fun v s' made => second v made.1 s' made.2) fun _ _ kept => kept

theorem Makes.then {f : α → Build β} (first : Makes (fun _ => True) x) (second : ∀ v, Makes R (f v)) : Makes R (x >>= f) :=
  first.bind fun v _ => second v

theorem makesLift (e : Except Error α) : Makes (fun _ => True) (Build.lift e) := by
  cases e with
  | ok v => exact makesPure trivial
  | error err => exact fun _ confined => confined

theorem makesSteady (steady : Steady x P) : Makes P x := by
  have near : ∀ s s' : Session, s.Confined → s.Near s' → s'.Confined := by
    rintro s _ confined ⟨n, rfl⟩
    exact ⟨confined.units, confined.structs⟩
  intro s confined
  exact (steady s).mono (fun v s' made => ⟨made.1, near s s' confined made.2⟩) fun _ s' failed => near s s' confined failed.2

theorem makesOf {P : α → Prop} (kept : ∀ s, (x s).2.units = s.units ∧ (x s).2.structs = s.structs)
    (values : ∀ s v, (x s).1 = .ok v → P v) : Makes P x := by
  intro s confined
  obtain ⟨units, structs⟩ := kept s
  have after : (x s).2.Confined := ⟨by rw [units]; exact confined.units, by rw [structs]; exact confined.structs⟩
  unfold Ends
  rcases answer : x s with ⟨err | v, s'⟩
  · rw [answer] at after
    exact after
  · rw [answer] at after
    exact ⟨values s v (by rw [answer]), after⟩

theorem makesFrames (f : Frames → α × Frames) : Makes (fun _ => True) (Build.withFrames f) :=
  makesOf (fun _ => ⟨rfl, rfl⟩) fun _ _ _ => trivial

theorem makesMapM {ι : Type} {f : ι → Build α} {l : List ι} (each : ∀ i ∈ l, Makes P (f i)) :
    Makes (fun vs => ∀ v ∈ vs, P v) (l.mapM f) := by
  induction l with
  | nil => exact makesPure nofun
  | cons i l ih =>
    rw [List.mapM_cons]
    refine (each i List.mem_cons_self).bind fun v made => ?_
    refine (ih fun j inside => each j (List.mem_cons_of_mem i inside)).bind fun vs all => ?_
    exact makesPure (List.forall_mem_cons.2 ⟨made, all⟩)

theorem makesForM {ι : Type} {f : ι → Build PUnit} {l : List ι} (each : ∀ i ∈ l, Makes (fun _ => True) (f i)) :
    Makes (fun _ => True) (l.forM f) := by
  induction l with
  | nil => exact makesPure trivial
  | cons i l ih =>
    exact (each i List.mem_cons_self).then fun _ => ih fun j inside => each j (List.mem_cons_of_mem i inside)

theorem makesLocated (location : Location) {l : Lowering} {env : Lowering.Env} {P : Expr → Prop} (makes : Makes P (l env)) :
    Makes P (Lowering.located location l env) := by
  unfold Lowering.located
  split
  · exact makes
  · intro s confined
    have ends := makes s confined
    unfold Ends at ends ⊢
    rw [Account.tryLocated]
    rcases answer : l env s with ⟨err | v, s'⟩ <;>
    · rw [answer] at ends
      exact ends

theorem makesOpen : Makes (fun _ => True) Build.checkOpen := by
  intro s confined
  unfold Build.checkOpen
  rw [Build.endsBind, Build.endsGet]
  cases s.built with
  | true => exact confined
  | false => exact ⟨trivial, confined⟩

theorem makesAddUnit {u : UnitDraft} (methods : ∀ m ∈ u.methods, m.Confined) : Makes (fun _ => True) (Build.addUnit u) := by
  unfold Build.addUnit
  refine makesOpen.then fun _ s confined => ?_
  rw [Build.endsBind, Build.endsGet]
  by_cases full : s.config.maxUnits ≤ s.units.length
  · simp only [full, if_true]
    exact confined
  · simp only [full, if_false]
    cases s.contains u.name with
    | true => exact confined
    | false =>
      refine ⟨trivial, ?_, confined.structs⟩
      intro v inside
      rcases List.mem_append.1 inside with old | new
      · exact confined.units v old
      · exact List.mem_singleton.1 new ▸ methods

end Rules

/-! ### Struct types -/

namespace Struct

variable {cls : String} {fields : List (String × Ty)}

theorem constructorKeeps (other : cls ≠ Compiler.unitName) (args : List Local) :
    Keeps Compiler.unitName True (constructorBody cls fields args) := by
  refine (opFloats (o := .new cls) other rfl).keeps.bind fun _ => Keeps.bind (keepsForM fun ⟨field, arg⟩ _ => ?_) fun _ =>
    (opFloats (o := .ret 1) trivial rfl).keeps
  refine (opFloats (by trivial) rfl).keeps.bind fun _ => (slotFloats arg).keeps.bind fun _ => ?_
  exact (loadFloats _ _).keeps.bind fun _ => (opFloats (by trivial) rfl).keeps

theorem dispatchKeeps (name : Local) {found : String × Ty → Emit Unit} (each : ∀ f ∈ fields, Keeps Compiler.unitName True (found f)) :
    Keeps Compiler.unitName True (dispatch name fields found) := by
  refine (slotFloats name).keeps.bind fun slot => labelMoves.keeps.bind fun missing => (keepsLabels _).bind fun labels => ?_
  refine (opFloats (by trivial) rfl).keeps.bind fun _ => (keepsStringSwitch _ _).bind fun _ => ?_
  refine Keeps.bind (keepsForM fun ⟨field, l⟩ inside => (movesMark l).keeps.bind fun _ => ?_) fun _ => ?_
  · exact each field (List.of_mem_zip inside).1
  · exact (movesMark missing).keeps.bind fun _ => keepsOps (by simp [Op.Confined])

theorem getterKeeps (this name : Local) : Keeps Compiler.unitName True (getterBody cls fields this name) := by
  refine (slotFloats this).keeps.bind fun self => dispatchKeeps name fun f _ => ?_
  refine (keepsOps (by simp [Op.Confined])).bind fun _ => (boxFloats _).keeps.bind fun _ => ?_
  exact (opFloats (o := .ret 1) trivial rfl).keeps

theorem setterKeeps (this name value : Local) : Keeps Compiler.unitName True (setterBody cls fields this name value) := by
  refine (slotFloats this).keeps.bind fun self => (slotFloats value).keeps.bind fun given => dispatchKeeps name fun f _ => ?_
  refine (keepsOps (by simp [Op.Confined])).bind fun _ => ?_
  cases f.2.isPrimitive with
  | true => exact (castFloats _ _).keeps.bind fun _ => keepsOps (by simp [Op.Confined])
  | false => exact (downcastFloats _).keeps.bind fun _ => keepsOps (by simp [Op.Confined])

theorem namesKeeps : Keeps Compiler.unitName True (namesBody fields) := by
  refine (opFloats (by trivial) rfl).keeps.bind fun _ => Keeps.bind (keepsForM fun f _ => ?_) fun _ => ?_
  · exact keepsOps (by simp [Op.Confined])
  · exact (opFloats (o := .ret 1) trivial rfl).keeps

theorem unitConfined (other : cls ≠ Compiler.unitName) (type : Ty) (made : Frames) :
    ∀ m ∈ (unit cls fields type made).1.methods, m.Confined := by
  obtain ⟨this, name, this', name', value, _, _, methods⟩ := unitMethods cls fields type made
  rw [methods]
  simp only [List.mem_cons, List.not_mem_nil, or_false]
  rintro m (rfl | rfl | rfl | rfl) body is <;> cases is
  · exact constructorKeeps other _
  · exact getterKeeps this name
  · exact setterKeeps this' name' value
  · exact namesKeeps

theorem typeMakes (fields : List (String × Ty)) :
    Makes (fun t => ∀ cls, t.rep.className? = some cls → cls ≠ Compiler.unitName) (Struct.type fields) := by
  unfold type
  refine makesOpen.then fun _ => ?_
  split
  · exact makesFail _
  · intro s confined
    rw [Build.endsBind, Build.endsGet]
    cases known : s.structs.lookup fields with
    | some t =>
      obtain ⟨before, rest, is, _⟩ := List.lookup_eq_some_iff.1 known
      exact ⟨confined.structs (fields, t) (by simp [is]), confined⟩
    | none =>
      have other : unitName s.structCount ≠ Compiler.unitName := (Compiler.namesApart _).1
      have methods := @unitConfined _ fields other (nextType s fields) s.frames
      simp only [unitName, nextType] at methods
      generalize made : unit (unitStem ++ toString s.structCount) fields
        (.struct false (unitStem ++ toString s.structCount) fields) s.frames = u at methods
      simp only [made, Build.endsBind, Build.endsSet]
      have announcedConfined : (announced s fields u).Confined := by
        refine ⟨confined.units, ?_⟩
        intro p inside cls is
        rcases List.mem_append.1 inside with old | new
        · exact confined.structs p old cls is
        · rw [List.mem_singleton.1 new] at is
          exact Option.some.inj is ▸ other
      change Ends (Build.addUnit u.1) (announced s fields u) _ _
      refine (makesAddUnit methods _ announcedConfined).mono ?_ fun _ _ => id
      exact fun _ s' added => ⟨fun cls is => Option.some.inj is ▸ other, added.2⟩

end Struct

/-! ### Expressions -/

abbrev Confines (x : Build Expr) : Prop := Makes (Expr.Confined Compiler.unitName) x

namespace Build

variable {x y : Expr}

theorem constantConfines (v : Value) : Confines (Build.constant v) := by
  refine makesOf (fun _ => ⟨rfl, rfl⟩) fun s e is => ?_
  cases is
  have hoisted (type : Ty) : (s.constants.hoist s.heap type v).1.Confined Compiler.unitName := by
    unfold Constants.hoist
    split <;> exact fun _ => opFloats trivial rfl
  split
  · exact nullConfined _
  · exact literalConfined _ _
  iterate 5 exact literalConfined _ _
  exact hoisted _

theorem dynamicMakes (d : Dynamic) : Makes (fun o => o.Confined Compiler.unitName False ∧ o.targets = []) (Build.dynamic d) :=
  makesSteady ((steadyDynamic d).mono fun _ ⟨_, is⟩ => is ▸ ⟨trivial, rfl⟩)

theorem guardedConfines {body : Expr → Build Expr} (confined : x.Confined Compiler.unitName)
    (inner : ∀ held, held.Confined Compiler.unitName → Confines (body held)) (frame : FrameId) :
    Confines (guarded frame x body none) := by
  unfold guarded
  split
  · exact inner x confined
  · refine (makesFrames _).then fun held => (inner _ (readConfined held)).bind fun present isConfined => ?_
    exact makesPure (guardedConfined confined isConfined held _)

theorem readConfines (a : PropertyAccess) (confined : x.Confined Compiler.unitName) (name : String) :
    Confines (a.read x name) := by
  have keyed (o : Op) (allowed : o.Confined Compiler.unitName False) (plain : o.targets = []) (before : Array (Option Nat)) :
      Floats Compiler.unitName False before (do
        x.generate
        op (.const (.string name))
        op o) :=
    (confined before).andThen fun _ => (opFloats (by trivial) rfl).andThen fun _ => opFloats allowed plain
  unfold PropertyAccess.read
  refine (makesLift _).then fun type => ?_
  cases a with
  | struct cls fields =>
    dsimp only
    split
    · exact makesPure (followedConfined confined (by trivial) rfl _)
    · exact makesFail _
  | record => exact makesPure (keyed _ trivial rfl)
  | map value =>
    refine makesPure fun before => (confined before).andThen fun _ => (opFloats (by trivial) rfl).andThen fun _ => ?_
    exact (opFloats (by trivial) rfl).andThen fun _ => downcastFloats _
  | _ =>
    refine (dynamicMakes _).bind fun o isConfined => makesPure fun before => (confined before).andThen fun _ => ?_
    exact (opFloats isConfined.1 isConfined.2).andThen fun _ => downcastFloats _

theorem propertyConfines (confined : x.Confined Compiler.unitName) (frame : FrameId) (name : String) :
    Confines (Build.property frame x name) := by
  unfold Build.property
  split
  · exact makesFail _
  · exact (makesLift _).then fun _ => guardedConfines confined (fun _ held => readConfines _ held name) frame

theorem indexConfines (confined : x.Confined Compiler.unitName) (key : y.Confined Compiler.unitName) (frame : FrameId) :
    Confines (Build.index frame x y) := by
  unfold Build.index
  split
  · exact makesFail _
  · next a _ =>
    refine guardedConfines confined (fun held isConfined => ?_) frame
    have made : Makes (fun o => o.Confined Compiler.unitName False ∧ o.targets = []) a.op := by
      cases a with
      | dynamic => exact dynamicMakes _
      | _ => exact makesPure ⟨trivial, rfl⟩
    refine made.bind fun o allowed => makesPure fun before => (isConfined before).andThen fun _ => ?_
    refine (asConfined key _ before).andThen fun _ => ?_
    exact (opFloats allowed.1 allowed.2).andThen fun _ => downcastFloats _

theorem lengthConfines (confined : x.Confined Compiler.unitName) (frame : FrameId) : Confines (Build.length frame x) := by
  unfold Build.length
  split
  · exact makesFail _
  · exact guardedConfines confined (fun _ held => makesPure (followedConfined held (by trivial) rfl _)) frame

theorem resolveConfines (confined : x.Confined Compiler.unitName) {timeout : Expr}
    (limit : timeout.Confined Compiler.unitName) (frame : FrameId) : Confines (Build.resolve frame timeout x) := by
  unfold Build.resolve
  split
  · exact makesPure confined
  · refine guardedConfines confined (fun held isConfined => makesPure fun before => ?_) frame
    refine (isConfined before).andThen fun _ => (limit before).andThen fun _ => ?_
    exact (opFloats (by trivial) rfl).andThen fun _ => downcastFloats _

theorem castConfines (confined : x.Confined Compiler.unitName) (type : Ty) : Confines (Build.cast x type) := by
  unfold Build.cast
  split
  · refine (makesLift _).then fun _ => makesPure fun before => movesLabel fun isNull => movesLabel fun done => ?_
    refine (confined before).andThen fun _ => (castOrNullMoves _ _ isNull).andThen fun _ => ?_
    refine (opFloats (by trivial) rfl).andThen fun _ => (movesJump done).andThen fun _ => ?_
    exact (movesMark isNull).andThen fun _ => (opFloats (by trivial) rfl).andThen fun _ => movesMark done
  · exact (makesLift _).then fun _ => makesPure (castConfined confined _)

theorem truthMakes (t : Ty) : Makes (fun _ => True) (checkTruth t) := by
  unfold checkTruth
  split
  · exact makesPure trivial
  · exact makesFail _

theorem notConfines (confined : x.Confined Compiler.unitName) : Confines (Build.not x) :=
  (truthMakes _).then fun _ => makesPure fun _ => truthConfined fun f => branchLeads confined f

theorem andConfines {es : List Expr} (confined : ∀ e ∈ es, e.Confined Compiler.unitName) : Confines (Build.and es) := by
  unfold Build.and
  split
  · exact makesFail _
  · exact (makesForM fun _ _ => truthMakes _).then fun _ => makesPure (andConfined confined _)

theorem orConfines {es : List Expr} (confined : ∀ e ∈ es, e.Confined Compiler.unitName) : Confines (Build.or es) := by
  unfold Build.or
  split
  · exact makesFail _
  · exact (makesForM fun _ _ => truthMakes _).then fun _ => makesPure (orConfined confined _)

theorem coalesceConfines {es : List Expr} (confined : ∀ e ∈ es, e.Confined Compiler.unitName) :
    Confines (Build.coalesce es) := by
  have kept : ∀ e ∈ upToPresent es, e.Confined Compiler.unitName := fun e inside => confined e (upToPresentSubset es inside)
  unfold Build.coalesce
  dsimp only
  split
  · exact makesFail _
  · next e is => exact makesPure (kept e (is ▸ List.mem_cons_self))
  · exact (makesLift _).then fun _ => makesPure (coalesceConfined kept _ _)

theorem arithmeticConfines (left : x.Confined Compiler.unitName) (right : y.Confined Compiler.unitName) (a : Arith) :
    Confines (Build.arithmetic a x y) := by
  unfold Build.arithmetic
  split
  · exact makesFail _
  · exact makesPure (arithmeticConfined left right a _ _ _)

theorem negateConfines (confined : x.Confined Compiler.unitName) : Confines (Build.negate x) := by
  unfold Build.negate
  split
  · exact makesFail _
  · exact makesPure (negateConfined confined _ _)

theorem selectConfines {arms : List (Expr × Expr)} {default : Expr}
    (confined : ∀ a ∈ arms, a.1.Confined Compiler.unitName ∧ a.2.Confined Compiler.unitName)
    (last : default.Confined Compiler.unitName) : Confines (Build.select arms default) :=
  (makesLift _).then fun _ => makesPure (selectConfined confined last _)

/-! ### Records and loops -/

theorem closedConfines {fields : List (String × Expr)} (confined : ∀ f ∈ fields, f.2.Confined Compiler.unitName)
    (frame : FrameId) : Confines (RecordDraft.closedValue frame [] fields) := by
  unfold RecordDraft.closedValue
  refine (Struct.typeMakes _).bind fun type apart => ?_
  split
  · exact makesFail _
  · next cls is =>
    exact (makesFrames _).then fun object =>
      makesPure (RecordDraft.closedConfined confined (apart cls is) frame object _ type)

theorem openConfines {fields : List (String × Expr)} (confined : ∀ f ∈ fields, f.2.Confined Compiler.unitName)
    (frame : FrameId) : Confines (RecordDraft.openValue frame [] (fields.map fun e => .field e.1 e.2)) := by
  unfold RecordDraft.openValue
  refine (makesFrames _).then fun record => ?_
  have codes : (fields.map fun e => RecordDraft.Step.field e.1 e.2).mapM (RecordDraft.stepCode frame record) =
      (pure (fields.map fun e => RecordDraft.entryCode record e.1 e.2) : Build (List Seq)) := by
    rw [List.mapM_map]
    exact List.mapM_pure ..
  rw [codes, pure_bind]
  refine makesPure (RecordDraft.openConfined ?_ frame record _)
  intro code inside
  obtain ⟨e, member, rfl⟩ := List.mem_map.1 inside
  exact RecordDraft.entryConfined (confined e member) record e.1

theorem recordConfines {entries : List (String × Expr)} (confined : ∀ e ∈ entries, e.2.Confined Compiler.unitName)
    (env : Lowering.Env) : Confines (Lowering.record entries env) := by
  unfold Lowering.record RecordDraft.new
  rw [bind_assoc]
  refine (makesFrames _).then fun f => ?_
  rw [pure_bind]
  have start : (RecordDraft.Entries.closed []).Are [] := rfl
  refine (makesSteady (RecordDraft.addAllSteady start entries)).bind ?_
  rintro ⟨frame, before, kept⟩ ⟨_, prelude, are⟩
  cases show before = [] from prelude
  cases kept with
  | closed fields =>
    cases are
    exact closedConfines confined frame
  | free steps =>
    cases are
    exact openConfines confined frame

theorem newLoopMakes (confined : x.Confined Compiler.unitName) (parent : FrameId) :
    Makes (fun l => l.iterable.Confined Compiler.unitName ∧ l.list.Confined Compiler.unitName ∧ l.items = []) (Loop.new parent x) := by
  unfold Loop.new
  split
  · exact makesFail _
  · next a _ =>
    refine (makesFrames _).then fun frame => (makesFrames _).then fun source => ?_
    have listed : Confines (a.toList source.read) := by
      cases a with
      | list elem => exact makesPure (readConfined source)
      | dynamic =>
        refine (dynamicMakes _).bind fun o allowed => ?_
        exact makesPure (followedConfined (readConfined source) allowed.1 allowed.2 _)
    refine listed.bind fun list isConfined => (makesFrames _).then fun _ => (makesFrames _).then fun _ => ?_
    exact (makesFrames _).then fun _ => makesPure ⟨confined, isConfined, rfl⟩

theorem transformConfines {body : Expr → Build Expr} (confined : x.Confined Compiler.unitName)
    (mapped : ∀ item, item.Confined Compiler.unitName → Confines (body item)) (frame : FrameId) :
    Confines (Build.transform frame x body) := by
  unfold Build.transform Scope.new
  rw [bind_assoc]
  refine (makesFrames _).then fun f => ?_
  rw [pure_bind]
  refine (newLoopMakes confined f).bind fun l ⟨source, list, empty⟩ => ?_
  refine (mapped _ (readConfined l.item)).bind fun m isConfined => ?_
  unfold Scope.bind
  simp only [bind_assoc, pure_bind]
  refine (makesFrames _).then fun out => (makesFrames _).then fun held => (makesLift _).then fun type => makesPure ?_
  have keepConfined : Seq.Confined Compiler.unitName (Loop.keep m.type held out) := by
    intro before
    refine movesLabel fun skip => (slotFloats held).andThen fun value => (slotFloats out).andThen fun target => ?_
    have rest : Moves Compiler.unitName False before Eq
        (do
          ops [.load target, .load value, .native .listAdd]
          mark skip)
        (do
          ops [.load target, .load value, .native .listAdd]
          mark (skip + before.size)) :=
      (opsFloat (by simp [Op.Confined, Op.targets])).andThen fun _ => movesMark skip
    cases m.type.isNullable with
    | true => exact (movesOps [.load value, .ifNull skip] (by simp [Op.Confined])).andThen fun _ => rest
    | false => exact rest
  have items : ∀ i ∈ l.items ++ [.exec (held.write m)] ++ [.exec (Loop.keep m.type held out)], i.Confined Compiler.unitName := by
    rw [empty]
    simp only [List.nil_append, List.cons_append, List.forall_mem_cons, List.not_mem_nil, false_imp_iff, implies_true, and_true]
    exact ⟨writeConfined isConfined held, keepConfined⟩
  refine Scope.valueConfined ?_ (readConfined out) f type
  simp only [Scope.exec, List.nil_append, List.cons_append, List.forall_mem_cons, List.not_mem_nil, false_imp_iff, implies_true, and_true]
  exact ⟨writeConfined (fun _ => opFloats (by trivial) rfl) out,
    Loop.loopConfined (l := { l with items := _ }) source list items⟩

end Build

/-! ### Types -/

namespace Resolve

variable {c : ContextId}

theorem learnMakes (t : ValueType) (type : Ty) : Makes (fun _ => True) (do
    modify fun s => { s with types := s.types.learnValue c t type }
    return type : Build Ty) :=
  makesOf (fun _ => ⟨rfl, rfl⟩) fun _ _ _ => trivial

theorem rememberMakes (t : ValueType) (x : Build Ty) (made : Makes (fun _ => True) x) : Makes (fun _ => True) (do
    let type ← x
    modify fun s => { s with types := s.types.learnValue c t type }
    return type : Build Ty) :=
  made.then fun type => learnMakes t type

theorem makeMakes {t : ValueType} {x : Build Ty} (made : Makes (fun _ => True) x) : Makes (fun _ => True) (do
    match (← get).types.value? c t with
    | some type => return type
    | none => x) := by
  intro s confined
  rw [Build.endsBind, Build.endsGet]
  cases s.types.value? c t with
  | some type => exact ⟨trivial, confined⟩
  | none => exact made s confined

mutual

theorem valueMakes (t : ValueType) : Makes (fun _ => True) (value c t) := by
  have remembered (t : ValueType) (type : Ty) : Makes (fun _ => True) (do
      let type ← pure type
      modify fun s => { s with types := s.types.learnValue c t type }
      return type : Build Ty) := rememberMakes t _ (makesPure trivial)
  cases t with
  | scalar p =>
    rw [value]
    exact makesPure trivial
  | array e =>
    rw [value]
    · exact makeMakes ((valueMakes e).then fun _ => remembered _ _)
    · exact nofun
  | map k v =>
    rw [value]
    · exact makeMakes ((valueMakes k).then fun _ => (valueMakes v).then fun _ => remembered _ _)
    · exact nofun
  | struct closed fs =>
    rw [value]
    · cases closed with
      | false => exact makeMakes (remembered _ _)
      | true =>
        refine makeMakes ((fieldsMakes fs).then fun types => ?_)
        exact (Struct.typeMakes types).bind fun _ _ => remembered _ _
    · exact nofun
  | optional e =>
    rw [value]
    · exact makeMakes ((valueMakes e).then fun _ => remembered _ _)
    · exact nofun
  | union ts =>
    rw [value]
    · exact makeMakes ((membersMakes ts).then fun types => rememberMakes _ _ (makesLift _))
    · exact nofun
  | _ =>
    rw [value]
    · exact makeMakes (remembered _ _)
    · exact nofun

theorem fieldsMakes (fs : List (String × ValueType)) : Makes (fun _ => True) (fields c fs) := by
  match fs with
  | [] =>
    rw [fields]
    exact makesPure trivial
  | (name, t) :: rest =>
    rw [fields]
    exact (valueMakes t).then fun _ => (fieldsMakes rest).then fun _ => makesPure trivial

theorem membersMakes (ts : List ValueType) : Makes (fun _ => True) (members c ts) := by
  match ts with
  | [] =>
    rw [members]
    exact makesPure trivial
  | t :: rest =>
    rw [members]
    exact (valueMakes t).then fun _ => (membersMakes rest).then fun _ => makesPure trivial

end

end Resolve

/-! ### Trees -/

namespace Lowering

open Build

structure Env.Confined (env : Env) : Prop where
  timeout : env.timeout.Confined Compiler.unitName
  bindings : ∀ b ∈ env.bindings, b.2.Confined Compiler.unitName

def Confining (l : Lowering) : Prop := ∀ env, env.Confined → Confines (l env)

def Operand.Confining : Operand → Prop
  | .node l => Lowering.Confining l
  | .nodes ls => ∀ l ∈ ls, Lowering.Confining l
  | _ => True

section

variable {o : Operands} {env : Env} (confining : ∀ a ∈ o.args, a.Confining)

theorem nameMakes (o : Operands) (i : Nat) : Makes (fun _ => True) (o.name i) := by
  unfold Operands.name Operands.missing
  split
  · exact makesPure trivial
  · exact makesFail _

theorem typeMakes (o : Operands) (i : Nat) (env : Env) : Makes (fun _ => True) (o.type? i env) := by
  unfold Operands.type? Operands.missing
  split
  · exact (Resolve.valueMakes _).then fun _ => makesPure trivial
  · exact makesPure trivial
  · exact makesFail _

theorem localConfines (known : env.Confined) (name : String) : Confines (localNamed name env) := by
  unfold localNamed
  split
  · next e found => exact makesPure (known.bindings _ (Account.lookupMember found))
  · unfold Scope.find
    rw [bind_assoc]
    intro s confined
    rw [Build.endsBind, Build.endsGet]
    split
    · next l _ => exact ⟨readConfined l, confined⟩
    · exact confined

theorem argumentConfines (env : Env) (name : String) : Confines (argumentNamed name env) := by
  unfold argumentNamed
  split
  · exact makesPure (readConfined _)
  · exact makesFail _

include confining

theorem nodeConfines (known : env.Confined) (i : Nat) : Confines (o.node i env) := by
  unfold Operands.node Operands.missing
  split
  · next l at_ => exact confining _ (List.mem_of_getElem? at_) env known
  · exact makesFail _

theorem nodesMake (known : env.Confined) (i : Nat) :
    Makes (fun es => ∀ e ∈ es, e.Confined Compiler.unitName) (o.nodes i env) := by
  unfold Operands.nodes Operands.missing
  split
  · next ls at_ => exact makesMapM fun l inside => confining _ (List.mem_of_getElem? at_) l inside env known
  · exact makesFail _

theorem bodyMakes (i : Nat) : Makes Lowering.Confining (o.body i) := by
  unfold Operands.body Operands.missing
  split
  · next l at_ => exact makesPure (confining _ (List.mem_of_getElem? at_))
  · exact makesFail _

theorem entriesMake (known : env.Confined) :
    Makes (fun es => ∀ e ∈ es, e.2.Confined Compiler.unitName) (o.entries env) := by
  have namesMake : Makes (fun _ => True) (o.names 0) := by
    unfold Operands.names Operands.missing
    split
    · exact makesPure trivial
    · exact makesFail _
  unfold Operands.entries
  refine namesMake.then fun names => (nodesMake confining known 1).bind fun values confined => ?_
  split
  · exact makesFail _
  · exact makesPure fun e inside => confined _ (List.of_mem_zip inside).2

theorem binaryConfines (known : env.Confined) {combine : Expr → Expr → Build Expr}
    (combined : ∀ x y, x.Confined Compiler.unitName → y.Confined Compiler.unitName → Confines (combine x y)) :
    Confines (o.binary env combine) :=
  (nodeConfines confining known 0).bind fun x left => (nodeConfines confining known 1).bind fun y right =>
    combined x y left right

theorem loopConfines (known : env.Confined) : Confines (transform o env) := by
  unfold transform
  refine (nodeConfines confining known 0).bind fun source isConfined => (nameMakes o 1).then fun name => ?_
  refine (bodyMakes confining 2).bind fun body inner => ?_
  refine Build.transformConfines isConfined (fun item held => inner _ ?_) env.frame
  exact ⟨known.timeout, List.forall_mem_cons.2 ⟨held, known.bindings⟩⟩

theorem applyConfining (location : Location) : Lowering.Confining (apply o location) := by
  intro env known
  have operand (i : Nat) : Confines (o.node i env) := nodeConfines confining known i
  have operands := nodesMake confining known 0
  have both {combine : Expr → Expr → Build Expr} (combined : ∀ x y, x.Confined Compiler.unitName →
      y.Confined Compiler.unitName → Confines (combine x y)) : Confines (o.binary env combine) :=
    binaryConfines confining known combined
  obtain ⟨operator, args⟩ := o
  cases operator with
  | literal =>
    have valueMakes : Makes (fun _ => True) (Operands.value ⟨.literal, args⟩ 0) := by
      unfold Operands.value Operands.missing
      split
      · exact makesPure trivial
      · exact makesFail _
    exact valueMakes.then fun v => constantConfines v
  | null => exact (typeMakes _ 0 env).then fun _ => makesPure (nullConfined _)
  | array => exact operands.bind fun _ confined => makesPure (listConfined confined)
  | map =>
    refine (entriesMake confining known).bind fun entries confined => ?_
    refine (makesMapM fun e _ => constantConfines (.string e.1)).bind fun keys constants => makesPure (mapConfined ?_)
    exact fun e inside => ⟨constants _ (List.of_mem_zip inside).1, by
      obtain ⟨x, member, is⟩ := List.mem_map.1 (List.of_mem_zip inside).2
      exact is ▸ confined x member⟩
  | record => exact (entriesMake confining known).bind fun _ confined => recordConfines confined env
  | property =>
    exact (operand 0).bind fun _ target => (nameMakes _ 1).then fun name => propertyConfines target env.frame name
  | index => exact both fun _ _ left right => indexConfines left right env.frame
  | add => exact both fun _ _ left right => arithmeticConfines left right _
  | sub => exact both fun _ _ left right => arithmeticConfines left right _
  | mult => exact both fun _ _ left right => arithmeticConfines left right _
  | div => exact both fun _ _ left right => arithmeticConfines left right _
  | mod => exact both fun _ _ left right => arithmeticConfines left right _
  | negate => exact (operand 0).bind fun _ confined => negateConfines confined
  | not => exact (operand 0).bind fun _ confined => notConfines confined
  | and => exact operands.bind fun _ confined => andConfines confined
  | or => exact operands.bind fun _ confined => orConfines confined
  | eq => exact both fun _ _ left right => makesPure (equalityConfined left right _)
  | neq => exact both fun _ _ left right => makesPure (equalityConfined left right _)
  | lt => exact both fun _ _ left right => makesPure (orderedConfined left right _ location)
  | ltEq => exact both fun _ _ left right => makesPure (orderedConfined left right _ location)
  | gt => exact both fun _ _ left right => makesPure (orderedConfined left right _ location)
  | gtEq => exact both fun _ _ left right => makesPure (orderedConfined left right _ location)
  | compare => exact both fun _ _ left right => makesPure (compareConfined left right location)
  | isNull => exact (operand 0).bind fun _ confined => makesPure (isNullConfined confined)
  | coalesce => exact operands.bind fun _ confined => coalesceConfines confined
  | cond =>
    refine (operand 0).bind fun test first => (operand 1).bind fun yes second => (operand 2).bind fun no last => ?_
    exact selectConfines (List.forall_mem_singleton.2 ⟨first, second⟩) last
  | «local» => exact (nameMakes _ 0).then fun name => localConfines known name
  | argument => exact (nameMakes _ 0).then fun name => argumentConfines env name
  | transform => exact loopConfines confining known
  | length => exact (operand 0).bind fun _ confined => lengthConfines confined env.frame
  | resolve => exact (operand 0).bind fun _ confined => resolveConfines confined known.timeout env.frame
  | cast =>
    refine (operand 0).bind fun value confined => (typeMakes _ 1 env).then fun type => ?_
    cases type with
    | some type => exact castConfines confined type
    | none => exact makesFail _
  | _ => exact makesFail _

end

mutual

theorem ofNodeConfining : ∀ n : Node, Lowering.Confining (ofNode n)
  | .mk operator args location => by
    rw [ofNode]
    intro env known
    refine makesLocated location (applyConfining (o := ⟨operator, ofArgs args⟩) ?_ location env known)
    exact ofArgsConfining args

theorem ofArgConfining : ∀ a : Arg, (ofArg a).Confining
  | .node n => by
    rw [ofArg]
    exact ofNodeConfining n
  | .nodes ns => by
    rw [ofArg]
    exact ofNodesConfining ns
  | .name _ | .names _ | .value _ | .type _ => by
    rw [ofArg]
    trivial

theorem ofArgsConfining : ∀ args : List Arg, ∀ a ∈ ofArgs args, a.Confining
  | [] => by
    rw [ofArgs]
    exact nofun
  | a :: rest => by
    rw [ofArgs, List.forall_mem_cons]
    exact ⟨ofArgConfining a, ofArgsConfining rest⟩

theorem ofNodesConfining : ∀ ns : List Node, ∀ l ∈ ofNodes ns, Lowering.Confining l
  | [] => by
    rw [ofNodes]
    exact nofun
  | n :: rest => by
    rw [ofNodes, List.forall_mem_cons]
    exact ⟨ofNodeConfining n, ofNodesConfining rest⟩

end

end Lowering

/-! ### Entry points -/

namespace Compiler

theorem newMethodMakes (name : String) (params : List (String × Ty)) :
    Makes (fun m => m.returns = .any) (Build.newMethod unitName name none params .any) :=
  makesOf (fun _ => ⟨rfl, rfl⟩) (by rintro s m ⟨⟩; rfl)

theorem lowerMakes (context : ContextId) (e : Entry) :
    Makes (fun l => l.draft.returns = .any ∧ l.value.Confined unitName) (lower context e) := by
  unfold lower
  refine makesOpen.then fun _ => (makesMapM (P := fun _ => True) fun p _ => Resolve.valueMakes p.2).bind fun types _ => ?_
  refine (newMethodMakes _ _).bind fun draft returns => ?_
  split
  · exact makesFail _
  · next timeout locals _ =>
    refine (Lowering.ofNodeConfining e.node _ ⟨readConfined timeout, List.forall_mem_nil _⟩).bind fun value confined => ?_
    exact makesPure ⟨returns, confined⟩

end Compiler

end QueryMachine
