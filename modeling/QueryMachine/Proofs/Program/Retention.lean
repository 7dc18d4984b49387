import QueryMachine.Proofs.Program.Compile

/-! What building a tree keeps of a session: where it holds of every session that frames, call sites, shared literals, resolved
types and struct types are added to, then it goes on to hold, whether building ends well or not. -/
namespace QueryMachine

open Build (Ends)

structure Session.Invariant where
  context : ContextId
  admits : Value → Prop
  holds : Session → Prop
  frames {s : Session} (fs : Frames) : holds s → holds { s with frames := fs }
  site {s : Session} (n : Nat) : holds s → holds { s with nextSite := n }
  literal {s : Session} {v : Value} : admits v → holds s → holds { s with constants := (s.constants.literal s.heap v).2 }
  learn {s s' : Session} {t : ValueType} (type : Ty) : holds s → s.types.value? context t = none → holds s' →
    holds { s' with types := s'.types.learnValue context t type }
  announce {s : Session} (fields : List (String × Ty)) (u : UnitDraft × Frames) : holds s → holds (Struct.announced s fields u)
  add {s : Session} (u : UnitDraft) : holds s → holds { s with names := u.name :: s.names, units := s.units ++ [u] }

def Retains {α : Type} (J : Session.Invariant) (x : Build α) : Prop :=
  ∀ s : Session, J.holds s → Ends x s (fun _ s' => J.holds s') fun _ s' => J.holds s'

section Rules

variable {α β : Type} {J : Session.Invariant} {x : Build α}

theorem retainsPure (v : α) : Retains J (pure v) := fun _ holds => holds

theorem retainsFail (c : Cause) : Retains J (Build.fail c : Build α) := fun _ holds => holds

theorem retainsStop (c : Cause) (f : α → Build β) : Retains J (Build.fail c >>= f) := by
  intro s holds
  rw [Build.endsBind]
  exact holds

theorem Retains.bind {f : α → Build β} (first : Retains J x) (second : ∀ v, Retains J (f v)) : Retains J (x >>= f) := by
  intro s holds
  rw [Build.endsBind]
  exact (first s holds).mono (fun v s' => second v s') fun _ _ kept => kept

theorem retainsLift (e : Except Error α) : Retains J (Build.lift e) := by
  intro s holds
  cases e <;> exact holds

theorem retainsFrames (f : Frames → α × Frames) : Retains J (Build.withFrames f) := fun _ holds => J.frames _ holds

theorem retainsDynamic (d : Dynamic) : Retains J (Build.dynamic d) := fun _ holds => J.site _ holds

theorem retainsOpen : Retains J Build.checkOpen := by
  intro s holds
  unfold Build.checkOpen
  rw [Build.endsBind, Build.endsGet]
  cases s.built with
  | true => exact holds
  | false => exact holds

theorem retainsMapM {ι : Type} {f : ι → Build α} {l : List ι} (each : ∀ i ∈ l, Retains J (f i)) : Retains J (l.mapM f) := by
  induction l with
  | nil => exact retainsPure _
  | cons i l ih =>
    rw [List.mapM_cons]
    have rest := ih fun j inside => each j (List.mem_cons_of_mem i inside)
    exact (each i List.mem_cons_self).bind fun v => rest.bind fun vs => retainsPure _

theorem retainsForM {ι : Type} {f : ι → Build PUnit} {l : List ι} (each : ∀ i ∈ l, Retains J (f i)) :
    Retains J (l.forM f) := by
  induction l with
  | nil => exact retainsPure _
  | cons i l ih =>
    exact (each i List.mem_cons_self).bind fun _ => ih fun j inside => each j (List.mem_cons_of_mem i inside)

theorem retainsFoldlM {ι : Type} {f : β → ι → Build β} (each : ∀ b i, Retains J (f b i)) (b : β) (l : List ι) :
    Retains J (l.foldlM f b) := by
  induction l generalizing b with
  | nil => exact retainsPure _
  | cons i l ih =>
    rw [List.foldlM_cons]
    exact (each b i).bind ih

theorem retainsLocated (location : Location) {l : Lowering} {env : Lowering.Env} (retains : Retains J (l env)) :
    Retains J (Lowering.located location l env) := by
  unfold Lowering.located
  split
  · exact retains
  · intro s holds
    have ends := retains s holds
    unfold Ends at ends ⊢
    rw [Account.tryLocated]
    rcases answer : l env s with ⟨err | v, s'⟩ <;>
    · rw [answer] at ends
      exact ends

theorem constantRetains {v : Value} (may : J.admits v) : Retains J (Build.constant v) := fun _ holds => J.literal may holds

theorem textRetains (text : String) : Retains J (Build.constant (.string text)) := fun _ holds => holds

end Rules

variable {J : Session.Invariant} {x y : Expr}

theorem Struct.typeRetains (fields : List (String × Ty)) : Retains J (Struct.type fields) := by
  have added (u : UnitDraft) : Retains J (Build.addUnit u) := by
    unfold Build.addUnit
    refine retainsOpen.bind fun _ s holds => ?_
    rw [Build.endsBind, Build.endsGet]
    by_cases full : s.config.maxUnits ≤ s.units.length
    · simp only [full, if_true]
      exact holds
    · simp only [full, if_false]
      cases s.contains u.name with
      | true => exact holds
      | false => exact J.add u holds
  unfold type
  refine retainsOpen.bind fun _ => ?_
  split
  · exact retainsFail _
  · intro s holds
    rw [Build.endsBind, Build.endsGet]
    cases s.structs.lookup fields with
    | some t => exact holds
    | none =>
      generalize made : unit (unitStem ++ toString s.structCount) fields
        (.struct false (unitStem ++ toString s.structCount) fields) s.frames = u
      simp only [made, Build.endsBind, Build.endsSet]
      exact added u.1 _ (J.announce fields u holds)

/-! ### Builders -/

namespace Build

theorem guardedRetains {body : Expr → Build Expr} (inner : ∀ held, Retains J (body held)) (frame : FrameId) :
    Retains J (guarded frame x body none) := by
  unfold guarded
  split
  · exact inner x
  · exact (retainsFrames _).bind fun held => (inner _).bind fun _ => retainsPure _

theorem readRetains (a : PropertyAccess) (name : String) : Retains J (a.read x name) := by
  unfold PropertyAccess.read
  refine (retainsLift _).bind fun type => ?_
  cases a with
  | struct cls fields =>
    dsimp only
    split
    · exact retainsPure _
    · exact retainsFail _
  | record | map _ => exact retainsPure _
  | _ => exact (retainsDynamic _).bind fun _ => retainsPure _

theorem propertyRetains (frame : FrameId) (name : String) : Retains J (property frame x name) := by
  unfold property
  split
  · exact retainsFail _
  · exact (retainsLift _).bind fun _ => guardedRetains (fun _ => readRetains _ name) frame

theorem indexRetains (frame : FrameId) : Retains J (index frame x y) := by
  unfold index
  split
  · exact retainsFail _
  · next a _ =>
    have op : Retains J a.op := by
      cases a with
      | dynamic => exact retainsDynamic _
      | _ => exact retainsPure _
    exact guardedRetains (fun _ => op.bind fun _ => retainsPure _) frame

theorem lengthRetains (frame : FrameId) : Retains J (length frame x) := by
  unfold length
  split
  · exact retainsFail _
  · exact guardedRetains (fun _ => retainsPure _) frame

theorem resolveRetains (frame : FrameId) (timeout : Expr) : Retains J (resolve frame timeout x) := by
  unfold resolve
  split
  · exact retainsPure _
  · exact guardedRetains (fun _ => retainsPure _) frame

theorem castRetains (type : Ty) : Retains J (cast x type) := by
  unfold cast
  split
  · exact (retainsLift _).bind fun _ => retainsPure _
  · exact (retainsLift _).bind fun _ => retainsPure _

theorem truthRetains (t : Ty) : Retains J (checkTruth t) := by
  unfold checkTruth
  split
  · exact retainsPure _
  · exact retainsFail _

theorem andRetains (es : List Expr) : Retains J (Build.and es) := by
  unfold Build.and
  split
  · exact retainsFail _
  · exact (retainsForM fun _ _ => truthRetains _).bind fun _ => retainsPure _

theorem orRetains (es : List Expr) : Retains J (Build.or es) := by
  unfold Build.or
  split
  · exact retainsFail _
  · exact (retainsForM fun _ _ => truthRetains _).bind fun _ => retainsPure _

theorem coalesceRetains (es : List Expr) : Retains J (coalesce es) := by
  unfold coalesce
  dsimp only
  split
  · exact retainsFail _
  · exact retainsPure _
  · exact (retainsLift _).bind fun _ => retainsPure _

theorem arithmeticRetains (a : Arith) : Retains J (arithmetic a x y) := by
  unfold arithmetic
  split
  · exact retainsFail _
  · exact retainsPure _

theorem negateRetains : Retains J (negate x) := by
  unfold negate
  split
  · exact retainsFail _
  · exact retainsPure _

theorem mergeRetains (a : PropertyAccess) (record source : Expr) : Retains J (a.mergeInto record source) := by
  unfold PropertyAccess.mergeInto
  cases a with
  | struct cls fields => exact retainsPure _
  | _ => exact (retainsDynamic _).bind fun _ => retainsPure _

theorem addRetains (r : RecordDraft) (name : String) (value : Expr) : Retains J (r.add name value) := by
  unfold RecordDraft.add
  cases value.type.isVoid with
  | true => exact retainsFail _
  | false => exact retainsPure _

theorem stepRetains (frame : FrameId) (record : Local) (step : RecordDraft.Step) :
    Retains J (RecordDraft.stepCode frame record step) := by
  cases step with
  | field name value => exact retainsPure _
  | merge source =>
    simp only [RecordDraft.stepCode]
    cases PropertyAccess.of? source.type with
    | none => exact retainsFail _
    | some a => exact (retainsFrames _).bind fun held => (mergeRetains _ _ _).bind fun _ => retainsPure _

theorem recordRetains (entries : List (String × Expr)) (env : Lowering.Env) : Retains J (Lowering.record entries env) := by
  unfold Lowering.record
  refine ((retainsFrames _).bind fun _ => retainsPure _).bind fun r => ?_
  refine (retainsFoldlM (fun r e => addRetains r e.1 e.2) r entries).bind fun r => ?_
  unfold RecordDraft.value
  split
  · refine (Struct.typeRetains _).bind fun type => ?_
    split
    · exact retainsFail _
    · exact (retainsFrames _).bind fun _ => retainsPure _
  · exact (retainsFrames _).bind fun record => (retainsMapM fun step _ => stepRetains _ _ step).bind fun _ => retainsPure _

theorem transformRetains {body : Expr → Build Expr} (mapped : ∀ item, Retains J (body item)) (frame : FrameId) :
    Retains J (transform frame x body) := by
  have loop (parent : FrameId) : Retains J (Loop.new parent x) := by
    unfold Loop.new
    split
    · exact retainsFail _
    · next a _ =>
      have listed (e : Expr) : Retains J (a.toList e) := by
        cases a with
        | list elem => exact retainsPure _
        | dynamic => exact (retainsDynamic _).bind fun _ => retainsPure _
      refine (retainsFrames _).bind fun _ => (retainsFrames _).bind fun _ => (listed _).bind fun _ => ?_
      exact (retainsFrames _).bind fun _ => (retainsFrames _).bind fun _ => (retainsFrames _).bind fun _ => retainsPure _
  unfold transform
  refine ((retainsFrames _).bind fun _ => retainsPure _).bind fun scope => (loop _).bind fun l => (mapped _).bind fun m => ?_
  refine ((retainsFrames _).bind fun _ => retainsPure _).bind fun bound => (retainsFrames _).bind fun held => ?_
  exact (retainsLift _).bind fun _ => retainsPure _

end Build

namespace Resolve

theorem knownRetains {t : ValueType} {made : Build Ty}
    (retains : ∀ s, J.holds s → s.types.value? J.context t = none → Retains J made) : Retains J (do
      match (← get).types.value? J.context t with
      | some type => return type
      | none => made) := by
  intro s holds
  rw [Build.endsBind, Build.endsGet]
  cases known : s.types.value? J.context t with
  | some type => exact holds
  | none => exact retains s holds known s holds

theorem learntRetains {s : Session} {t : ValueType} {made : Build Ty} (holds : J.holds s)
    (unknown : s.types.value? J.context t = none) (retains : Retains J made) : Retains J (do
      let type ← made
      modify fun s => { s with types := s.types.learnValue J.context t type }
      return type : Build Ty) := retains.bind fun type _ holds' => J.learn type holds unknown holds'

mutual

theorem valueRetains (t : ValueType) : Retains J (value J.context t) := by
  have learnt {s : Session} {t : ValueType} (holds : J.holds s) (unknown : s.types.value? J.context t = none) (type : Ty) :
      Retains J (do
        let type ← pure type
        modify fun s => { s with types := s.types.learnValue J.context t type }
        return type : Build Ty) := learntRetains holds unknown (retainsPure type)
  cases t with
  | scalar p =>
    rw [value]
    exact retainsPure _
  | array e =>
    rw [value]
    · exact knownRetains fun s holds unknown => (valueRetains e).bind fun _ => learnt holds unknown _
    · exact nofun
  | map k v =>
    rw [value]
    · exact knownRetains fun s holds unknown => (valueRetains k).bind fun _ => (valueRetains v).bind fun _ => learnt holds unknown _
    · exact nofun
  | struct closed fs =>
    rw [value]
    · cases closed with
      | false => exact knownRetains fun s holds unknown => learnt holds unknown _
      | true =>
        refine knownRetains fun s holds unknown => (fieldsRetains fs).bind fun types => ?_
        exact (Struct.typeRetains types).bind fun _ => learnt holds unknown _
    · exact nofun
  | optional e =>
    rw [value]
    · exact knownRetains fun s holds unknown => (valueRetains e).bind fun _ => learnt holds unknown _
    · exact nofun
  | union ts =>
    rw [value]
    · exact knownRetains fun s holds unknown => (membersRetains ts).bind fun types =>
        learntRetains holds unknown (retainsLift _)
    · exact nofun
  | _ =>
    rw [value]
    · exact knownRetains fun s holds unknown => learnt holds unknown _
    · exact nofun

theorem fieldsRetains (fs : List (String × ValueType)) : Retains J (fields J.context fs) := by
  match fs with
  | [] =>
    rw [fields]
    exact retainsPure _
  | (name, t) :: rest =>
    rw [fields]
    exact (valueRetains t).bind fun _ => (fieldsRetains rest).bind fun _ => retainsPure _

theorem membersRetains (ts : List ValueType) : Retains J (members J.context ts) := by
  match ts with
  | [] =>
    rw [members]
    exact retainsPure _
  | t :: rest =>
    rw [members]
    exact (valueRetains t).bind fun _ => (membersRetains rest).bind fun _ => retainsPure _

end

end Resolve

/-! ### Trees -/

mutual

def Node.literals : Node → List Value
  | .mk _ args _ => Arg.literalsOf args

def Arg.literals : Arg → List Value
  | .node n => n.literals
  | .nodes ns => Node.literalsOf ns
  | .value v => [v]
  | _ => []

def Arg.literalsOf : List Arg → List Value
  | [] => []
  | a :: rest => a.literals ++ Arg.literalsOf rest

def Node.literalsOf : List Node → List Value
  | [] => []
  | n :: rest => n.literals ++ Node.literalsOf rest

end

namespace Lowering

def Retains (J : Session.Invariant) (l : Lowering) : Prop :=
  ∀ env, env.types = J.context → QueryMachine.Retains J (l env)

def Operand.Retains (J : Session.Invariant) : Operand → Prop
  | .node l => Lowering.Retains J l
  | .nodes ls => ∀ l ∈ ls, Lowering.Retains J l
  | .value v => J.admits v
  | _ => True

section

variable {o : Operands} {env : Env}

theorem nameRetains (i : Nat) : QueryMachine.Retains J (o.name i) := by
  unfold Operands.name Operands.missing
  split
  · exact retainsPure _
  · exact retainsFail _

theorem typeRetains (context : env.types = J.context) (i : Nat) : QueryMachine.Retains J (o.type? i env) := by
  unfold Operands.type? Operands.missing
  rw [context]
  split
  · exact (Resolve.valueRetains _).bind fun _ => retainsPure _
  · exact retainsPure _
  · exact retainsFail _

theorem localRetains (name : String) : QueryMachine.Retains J (localNamed name env) := by
  unfold localNamed Scope.find
  split
  · exact retainsPure _
  · rw [bind_assoc]
    intro s holds
    rw [Build.endsBind, Build.endsGet]
    split <;> exact holds

theorem argumentRetains (name : String) : QueryMachine.Retains J (argumentNamed name env) := by
  unfold argumentNamed
  split
  · exact retainsPure _
  · exact retainsFail _

variable (retains : ∀ a ∈ o.args, a.Retains J) (context : env.types = J.context)

include retains

theorem literalRetains : QueryMachine.Retains J (do Build.constant (← o.value 0)) := by
  unfold Operands.value Operands.missing
  split
  · next v at_ => exact constantRetains (retains (.value v) (List.mem_of_getElem? at_))
  · exact retainsStop _ _

include context

theorem nodeRetains (i : Nat) : QueryMachine.Retains J (o.node i env) := by
  unfold Operands.node Operands.missing
  split
  · next l at_ => exact retains _ (List.mem_of_getElem? at_) env context
  · exact retainsFail _

theorem nodesRetains (i : Nat) : QueryMachine.Retains J (o.nodes i env) := by
  unfold Operands.nodes Operands.missing
  split
  · next ls at_ => exact retainsMapM fun l inside => retains _ (List.mem_of_getElem? at_) l inside env context
  · exact retainsFail _

theorem binaryRetains {combine : Expr → Expr → Build Expr} (combined : ∀ x y, QueryMachine.Retains J (combine x y)) :
    QueryMachine.Retains J (o.binary env combine) :=
  (nodeRetains retains context 0).bind fun x => (nodeRetains retains context 1).bind fun y => combined x y

theorem entriesRetains : QueryMachine.Retains J (o.entries env) := by
  have names : QueryMachine.Retains J (o.names 0) := by
    unfold Operands.names Operands.missing
    split
    · exact retainsPure _
    · exact retainsFail _
  unfold Operands.entries
  refine names.bind fun names => (nodesRetains retains context 1).bind fun values => ?_
  split
  · exact retainsFail _
  · exact retainsPure _

theorem loopRetains : QueryMachine.Retains J (transform o env) := by
  unfold transform
  refine (nodeRetains retains context 0).bind fun source => (nameRetains 1).bind fun name => ?_
  unfold Operands.body Operands.missing
  split
  · next l at_ =>
    have inner : Lowering.Retains J l := retains _ (List.mem_of_getElem? at_)
    rw [pure_bind]
    exact Build.transformRetains (fun item => inner { env with bindings := (name, item) :: env.bindings } context) env.frame
  · exact retainsStop _ _

omit context in
theorem applyRetains (location : Location) : Lowering.Retains J (apply o location) := by
  intro env context
  have operand (i : Nat) : QueryMachine.Retains J (o.node i env) := nodeRetains retains context i
  have operands : QueryMachine.Retains J (o.nodes 0 env) := nodesRetains retains context 0
  have entries : QueryMachine.Retains J (o.entries env) := entriesRetains retains context
  have literal : QueryMachine.Retains J (do Build.constant (← o.value 0)) := literalRetains retains
  have loop : QueryMachine.Retains J (transform o env) := loopRetains retains context
  have named (i : Nat) : QueryMachine.Retains J (o.type? i env) := typeRetains context i
  have both {combine : Expr → Expr → Build Expr} (combined : ∀ x y, QueryMachine.Retains J (combine x y)) :
      QueryMachine.Retains J (o.binary env combine) := binaryRetains retains context combined
  obtain ⟨operator, args⟩ := o
  cases operator with
  | literal => exact literal
  | null => exact (named 0).bind fun _ => retainsPure _
  | array => exact operands.bind fun _ => retainsPure _
  | map => exact entries.bind fun _ => (retainsMapM fun e _ => textRetains e.1).bind fun _ => retainsPure _
  | record => exact entries.bind fun _ => Build.recordRetains _ env
  | property => exact (operand 0).bind fun _ => (nameRetains 1).bind fun name => Build.propertyRetains env.frame name
  | index => exact both fun _ _ => Build.indexRetains env.frame
  | add | sub | mult | div | mod => exact both fun _ _ => Build.arithmeticRetains _
  | negate => exact (operand 0).bind fun _ => Build.negateRetains
  | not => exact (operand 0).bind fun _ => (Build.truthRetains _).bind fun _ => retainsPure _
  | and => exact operands.bind Build.andRetains
  | or => exact operands.bind Build.orRetains
  | eq | neq | lt | ltEq | gt | gtEq | compare => exact both fun _ _ => retainsPure _
  | isNull => exact (operand 0).bind fun _ => retainsPure _
  | coalesce => exact operands.bind Build.coalesceRetains
  | cond =>
    refine (operand 0).bind fun _ => (operand 1).bind fun _ => (operand 2).bind fun _ => ?_
    exact (retainsLift _).bind fun _ => retainsPure _
  | «local» => exact (nameRetains 0).bind fun name => localRetains name
  | argument => exact (nameRetains 0).bind fun name => argumentRetains name
  | transform => exact loop
  | length => exact (operand 0).bind fun _ => Build.lengthRetains env.frame
  | resolve => exact (operand 0).bind fun _ => Build.resolveRetains env.frame env.timeout
  | cast =>
    refine (operand 0).bind fun _ => (named 1).bind fun type => ?_
    cases type with
    | some type => exact Build.castRetains type
    | none => exact retainsFail _
  | call | invoke | subquery => exact retainsFail _

end

mutual

theorem ofNodeRetains : ∀ n : Node, (∀ v ∈ n.literals, J.admits v) → Lowering.Retains J (ofNode n)
  | .mk operator args location, may => by
    rw [Node.literals] at may
    rw [ofNode]
    intro env context
    exact retainsLocated location (applyRetains (o := ⟨operator, ofArgs args⟩) (ofArgsRetain args may) location env context)

theorem ofArgRetains : ∀ a : Arg, (∀ v ∈ a.literals, J.admits v) → (ofArg a).Retains J
  | .node n, may => by
    rw [Arg.literals] at may
    rw [ofArg]
    exact ofNodeRetains n may
  | .nodes ns, may => by
    rw [Arg.literals] at may
    rw [ofArg]
    exact ofNodesRetain ns may
  | .value v, may => by
    rw [Arg.literals] at may
    rw [ofArg]
    exact may v List.mem_cons_self
  | .name _, _ | .names _, _ | .type _, _ => by
    rw [ofArg]
    trivial

theorem ofArgsRetain : ∀ args : List Arg, (∀ v ∈ Arg.literalsOf args, J.admits v) → ∀ a ∈ ofArgs args, a.Retains J
  | [], _ => by
    rw [ofArgs]
    exact nofun
  | a :: rest, may => by
    rw [Arg.literalsOf, List.forall_mem_append] at may
    rw [ofArgs, List.forall_mem_cons]
    exact ⟨ofArgRetains a may.1, ofArgsRetain rest may.2⟩

theorem ofNodesRetain : ∀ ns : List Node, (∀ v ∈ Node.literalsOf ns, J.admits v) → ∀ l ∈ ofNodes ns, Lowering.Retains J l
  | [], _ => by
    rw [ofNodes]
    exact nofun
  | n :: rest, may => by
    rw [Node.literalsOf, List.forall_mem_append] at may
    rw [ofNodes, List.forall_mem_cons]
    exact ⟨ofNodeRetains n may.1, ofNodesRetain rest may.2⟩

end

end Lowering

/-! ### Entry points -/

namespace Compiler

theorem newMethodRetains (name : String) (params : List (String × Ty)) :
    Retains J (Build.newMethod unitName name none params .any) := by
  unfold Build.newMethod
  exact retainsFrames _

theorem methodRetains {e : Entry} (may : ∀ v ∈ e.node.literals, J.admits v) : Retains J (method J.context e) := by
  unfold method lower
  refine Retains.bind ?_ fun _ => retainsPure _
  refine retainsOpen.bind fun _ => (retainsMapM fun p _ => Resolve.valueRetains p.2).bind fun types => ?_
  refine (newMethodRetains _ _).bind fun draft => ?_
  split
  · exact retainsFail _
  · exact (Lowering.ofNodeRetains e.node may _ rfl).bind fun _ => retainsPure _

theorem addRetains {c : Compiler} (context : c.context = J.context) {e : Entry} (may : ∀ v ∈ e.node.literals, J.admits v)
    (holds : J.holds c.session) : J.holds (c.add e).2.session := by
  have made := methodRetains may c.session holds
  rw [← context] at made
  have after : J.holds (method c.context e c.session).2 := by
    unfold Ends at made
    rcases answer : method c.context e c.session with ⟨err | r, s⟩ <;>
    · rw [answer] at made
      exact made
  obtain ⟨err, s, is, same | same⟩ | ⟨m, types, s, unit, answer, _, _, is⟩ := c.addCases e
  · rw [is, same]
    exact holds
  · rw [is, same]
    exact after
  · rw [is]
    rw [answer] at after
    exact after

theorem addAllRetains {c : Compiler} (context : c.context = J.context) {es : List Entry}
    (may : ∀ e ∈ es, ∀ v ∈ e.node.literals, J.admits v) (holds : J.holds c.session) : J.holds (c.addAll es).session := by
  refine (addAllKeeps (P := fun c => c.context = J.context ∧ J.holds c.session) ?_ ⟨context, holds⟩).2
  intro c e inside ⟨context, holds⟩
  exact ⟨(addContext c e).trans context, addRetains context (may e inside) holds⟩

end Compiler

end QueryMachine
