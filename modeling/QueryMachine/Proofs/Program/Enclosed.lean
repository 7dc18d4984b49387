import QueryMachine.Proofs.Program.Dangling
import QueryMachine.Proofs.Program.Retention
import QueryMachine.Proofs.Unit.Reader
import QueryMachine.Proofs.Unknown

/-! A compiler in a child context. It takes the types of the compilation around it as they are, and the units of their
structs stay where they were made. -/
namespace QueryMachine

namespace Compiler

def recalling (context : ContextId) (t : ValueType) (type : Ty) : Session.Invariant where
  context
  admits _ := True
  holds s := s.built = false ∧ s.types.value? context t = some type
  frames _ := id
  site _ := id
  literal _ := id
  learn _ held unknown held' := by
    refine ⟨held'.1, ?_⟩
    rw [Registry.learnSpares]
    · exact held'.2
    · rintro rfl
      cases held.2.symm.trans unknown
  announce _ _ := id
  add _ := id

variable {r : Registry} {c : ContextId} {t : ValueType} {type : Ty} {config : Config} {heap : Heap}

def enclosed (config : Config) (heap : Heap) (r : Registry) (c : ContextId) (es : List Entry) : Compiler :=
  (withTypes config heap (r.child c).2 (r.child c).1).addAll es

theorem enclosedContext (es : List Entry) : (enclosed config heap r c es).context = (r.child c).1 := addAllContext _ _

theorem enclosedRecalls (known : r.value? c t = some type) (config : Config) (heap : Heap) (es : List Entry) :
    (recalling (r.child c).1 t type).holds (enclosed config heap r c es).session :=
  addAllRetains (J := recalling (r.child c).1 t type) rfl (fun _ _ _ _ => trivial) ⟨rfl, Registry.childKnows.trans known⟩

theorem recalled {context : ContextId} {s : Session} (known : s.types.value? context t = some type)
    (composite : ∀ p, t ≠ .scalar p) : Resolve.value context t s = (.ok type, s) := by
  have opened : ∀ f : Session → Build Ty, (get >>= f).run s = (f s).run s := fun _ => rfl
  change (Resolve.value context t).run s = _
  rw [Resolve.value]
  · rw [opened, known]
    rfl
  · exact composite

/-! ### Entry points that read a field -/

def fieldEntry (name param : String) (t : ValueType) (field : String) (isStatement : Bool) (here there : Location) : Entry :=
  ⟨name, [(param, t)], .mk .property [.node (.mk .argument [.name param] here), .name field] there, isStatement⟩

theorem locatedOk {l : Lowering} {env : Lowering.Env} {s s' : Session} {x : Expr} (location : Location)
    (ok : l env s = (.ok x, s')) : Lowering.located location l env s = (.ok x, s') := by
  unfold Lowering.located
  split
  · exact ok
  · rw [Account.tryLocated, ok]

def fieldValue (cls : String) (f : String × Ty) (l : Local) (isStatement : Bool) : Expr :=
  if isStatement then Build.outcome (Build.fieldOf cls f l.read) else Build.fieldOf cls f l.read

theorem openedMethod (name param : String) (type : Ty) (s : Session) : ∃ (m : MethodDraft) (timeout l : Local) (frames : Frames),
    m.locals = [timeout, l] ∧ l.type = type ∧ m.ref.cls = unitName ∧ m.ref.name = name ∧ m.returns = .any ∧
      Build.newMethod unitName name none [("$timeout", .timeout), (param, type)] .any s = (.ok m, { s with frames }) :=
  ⟨_, _, _, _, rfl, rfl, rfl, rfl, rfl, rfl⟩

theorem fieldLowered {env : Lowering.Env} {l : Local} {cls param field : String} {fields : List (String × Ty)}
    {f : String × Ty} (bound : env.arguments.lookup param = some l) (typed : l.type = .struct false cls fields)
    (found : Ty.fieldNamed? fields field = some f) (here there : Location) (s : Session) :
    Lowering.ofNode (.mk .property [.node (.mk .argument [.name param] here), .name field] there) env s =
      (.ok (Build.fieldOf cls f l.read), s) := by
  have target : Lowering.ofNode (.mk .argument [.name param] here) env s = (.ok l.read, s) := by
    rw [Lowering.ofNode]
    refine locatedOk here ?_
    have named : Lowering.argumentNamed param env = pure l.read := by
      unfold Lowering.argumentNamed
      rw [bound]
    change Lowering.argumentNamed param env s = _
    rw [named]
    rfl
  rw [Lowering.ofNode]
  refine locatedOk there ?_
  have steps : Lowering.apply ⟨.property, Lowering.ofArgs [.node (.mk .argument [.name param] here), .name field]⟩ there env =
      (do Build.property env.frame (← Lowering.ofNode (.mk .argument [.name param] here) env) field) := by
    simp only [Lowering.ofArgs, Lowering.ofArg]
    rfl
  rw [steps, Build.bindOk target]
  exact Build.propertyFound typed found s

theorem fieldMethod {context : ContextId} {s : Session} (open_ : s.built = false) {cls : String} {fields : List (String × Ty)}
    (known : s.types.value? context t = some (.struct false cls fields)) (composite : ∀ p, t ≠ .scalar p) {field : String}
    {f : String × Ty} (found : Ty.fieldNamed? fields field = some f) (name param : String) (isStatement : Bool)
    (here there : Location) : ∃ (m : MethodDraft) (l : Local) (frames : Frames),
      m.ref.cls = unitName ∧ m.ref.name = name ∧ m.returns = .any ∧
        method context (fieldEntry name param t field isStatement here there) s =
          (.ok (m.withValue (fieldValue cls f l isStatement), [.struct false cls fields]), { s with frames }) := by
  obtain ⟨m, timeout, l, frames, locals, typed, own, named, returns, made⟩ :=
    openedMethod name param (.struct false cls fields) s
  refine ⟨m, l, frames, own, named, returns, ?_⟩
  have opened : Build.checkOpen s = (.ok (), s) := by
    unfold Build.checkOpen
    rw [Build.bindOk (show (get : Build Session) s = (.ok s, s) from rfl), open_]
    rfl
  have resolved : [(param, t)].mapM (fun p => Resolve.value context p.2) s = (.ok [.struct false cls fields], s) := by
    rw [List.mapM_cons, Build.bindOk (recalled known composite)]
    rfl
  have lowered : lower context (fieldEntry name param t field isStatement here there) s =
      (.ok ⟨m, [.struct false cls fields], Build.fieldOf cls f l.read⟩, { s with frames }) := by
    unfold lower fieldEntry
    rw [Build.bindOk opened, Build.bindOk resolved]
    dsimp only
    simp only [List.map_cons, List.map_nil, List.zip_cons_cons, List.zip_nil_right]
    rw [Build.bindOk made, locals]
    dsimp only
    rw [Build.bindOk (fieldLowered (l := l) ?_ typed found here there _)]
    · rfl
    · exact List.lookup_cons_self
  unfold method
  rw [Build.bindOk lowered]
  rfl

theorem fieldPuts (cls : String) (f : String × Ty) (l : Local) (isStatement : Bool) :
    Emit.Puts (.getField (Struct.fieldRef cls f)) (fieldValue cls f l isStatement).generate := by
  have read : Emit.Puts (.getField (Struct.fieldRef cls f)) (Build.fieldOf cls f l.read).generate :=
    Emit.putsLast fun _ => Emit.putsOp _
  unfold fieldValue
  cases isStatement with
  | true => exact outcomePuts read
  | false => exact read

theorem enclosedLists (config : Config) (heap : Heap) (es : List Entry) : (enclosed config heap r c es).Lists :=
  addAllLists ⟨rfl, rfl⟩ es

theorem fieldDangles {cls : String} {fields : List (String × Ty)} (known : r.value? c t = some (.struct false cls fields))
    (composite : ∀ p, t ≠ .scalar p) {field : String} {f : String × Ty} (found : Ty.fieldNamed? fields field = some f)
    (es later : List Entry) (name param : String) (isStatement : Bool) (here there : Location)
    (new : ∀ sig ∈ (enclosed config heap r c es).signatures, sig.name ≠ name) :
    let added := (enclosed config heap r c es).add (fieldEntry name param t field isStatement here there)
    added.1 = .ok () ∧ ((∀ u ∈ Load.unitsOf (added.2.addAll later).closing, u.name ≠ cls) →
      (added.2.addAll later).build.1.isOk = false) := by
  obtain ⟨open_, recalls⟩ := enclosedRecalls known config heap es
  obtain ⟨m, l, frames, own, named, returns, made⟩ := fieldMethod open_ recalls composite found name param isStatement here there
  rw [← enclosedContext es] at made
  obtain ⟨taken, stands, session⟩ := addTakes (enclosedLists config heap es) new made own
  refine ⟨taken, danglingRefused ?_ (addAllStays _ later stands) ?_⟩
  · have before : (recalling (r.child c).1 t (.struct false cls fields)).holds
        ((enclosed config heap r c es).add (fieldEntry name param t field isStatement here there)).2.session := by
      rw [session]
      exact ⟨open_, recalls⟩
    have context := (addContext (enclosed config heap r c es) (fieldEntry name param t field isStatement here there)).trans
      (enclosedContext es)
    exact (addAllRetains context (fun _ _ _ _ => trivial) before).1
  · intro fs h verifying method is
    exact ⟨_, MethodDraft.putRendered returns (fieldPuts cls f l isStatement) is, rfl⟩

theorem strangersAlike {ts : List ValueType} (strange : ∀ u ∈ ValueType.memberParts ts, r.value? c u = none)
    (config : Config) (heap : Heap) :
    let inner := enclosed config heap r c []
    let alone := new config heap
    let answer := (Resolve.members alone.context ts).run alone.session
    ∃ types, (Resolve.members inner.context ts).run inner.session = (answer.1, answer.2.knowing types) := by
  intro inner alone answer
  have beside : Session.Beside (fun u => r.value? c u = none) alone.context inner.context alone.session inner.session := {
    rest := rfl
    alike := fun u none => Registry.childKnows.trans none
    there := Nat.zero_lt_one
    there' := by
      change r.contexts.size < (r.contexts.push _).size
      rw [Array.size_push]
      exact Nat.lt_succ_self _ }
  obtain ⟨same, after⟩ := Resolve.membersMatch ts strange _ _ beside
  exact ⟨(Resolve.members inner.context ts inner.session).2.types, Prod.ext same after.rest⟩

/-- What was resolved around the compiler is handed out again, whatever entry points came before, and no unit made. An
entry point that reads a field of such a struct is taken, and with it the program is not built, unless a unit of the
compiler's own bears the name. What was not resolved around is resolved as by a compiler with a registry of its own. -/
theorem enclosedType (known : r.value? c t = some type) (composite : ∀ p, t ≠ .scalar p) (config : Config) (heap : Heap)
    (es : List Entry) :
    let inner := enclosed config heap r c es
    (Resolve.value inner.context t).run inner.session = (.ok type, inner.session) ∧
      (∀ cls fields field f, type = .struct false cls fields → Ty.fieldNamed? fields field = some f →
        ∀ name param isStatement here there, (∀ sig ∈ inner.signatures, sig.name ≠ name) →
          let added := inner.add (fieldEntry name param t field isStatement here there)
          added.1 = .ok () ∧ ∀ later, (∀ u ∈ Load.unitsOf (added.2.addAll later).closing, u.name ≠ cls) →
            (added.2.addAll later).build.1.isOk = false) ∧
      ∀ ts, (∀ u ∈ ValueType.memberParts ts, r.value? c u = none) →
        let first := enclosed config heap r c []
        let alone := new config heap
        let answer := (Resolve.members alone.context ts).run alone.session
        ∃ types, (Resolve.members first.context ts).run first.session = (answer.1, answer.2.knowing types) := by
  refine ⟨?_, ?_, fun ts strange => strangersAlike strange config heap⟩
  · rw [enclosedContext]
    exact recalled (enclosedRecalls known config heap es).2 composite
  · rintro cls fields field f rfl found name param isStatement here there new
    refine ⟨(fieldDangles known composite found es [] name param isStatement here there new).1, fun later => ?_⟩
    exact (fieldDangles known composite found es later name param isStatement here there new).2

end Compiler

def fieldRead : Entry := Compiler.fieldEntry "read" "r" (.struct true [("x", .scalar .int32)]) "x" false ⟨0, 0⟩ ⟨0, 0⟩

/-- Compiles the entry point, and has made the unit of its record. -/
def outerCompiler : Compiler := ((Compiler.new .default .empty).add fieldRead).2

def innerCompiler : Compiler := .enclosed .default .empty outerCompiler.session.types outerCompiler.context []

theorem enclosedStruct :
    let t := ValueType.struct true [("x", .scalar .int32)]
    let type := Ty.struct false "struct_0" [("x", .prim .int32)]
    outerCompiler.session.types.value? outerCompiler.context t = some type ∧ (∀ p, t ≠ .scalar p) ∧
      (Resolve.value innerCompiler.context t).run innerCompiler.session = (.ok type, innerCompiler.session) ∧
      (innerCompiler.add fieldRead).1 = .ok () ∧ (innerCompiler.add fieldRead).2.build.1.isOk = false := by
  intro t type
  have known : outerCompiler.session.types.value? outerCompiler.context t = some type := by decide +kernel
  have composite : ∀ p, t ≠ .scalar p := by simp [t]
  obtain ⟨same, reads, _⟩ := Compiler.enclosedType known composite .default .empty []
  have found : Ty.fieldNamed? [("x", .prim .int32)] "x" = some ("x", .prim .int32) := by decide +kernel
  obtain ⟨taken, refused⟩ := reads _ _ _ _ rfl found "read" "r" false ⟨0, 0⟩ ⟨0, 0⟩ nofun
  exact ⟨known, composite, same, taken, refused [] (by decide +kernel)⟩

/-- The same entry point: one compiler builds it, and the one in the child context accepts it and cannot. -/
theorem enclosedStructDangles : outerCompiler.build.1.isOk = true ∧ (innerCompiler.add fieldRead).1.isOk = true ∧
    (innerCompiler.add fieldRead).2.session.contains "struct_0" = false ∧
    (innerCompiler.add fieldRead).2.build.1.isOk = false := by
  decide +kernel

end QueryMachine
