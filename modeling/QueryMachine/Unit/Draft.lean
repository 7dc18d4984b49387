import QueryMachine.Code.Verify
import QueryMachine.Expr.Callee
import QueryMachine.Expr.Place
import QueryMachine.Machine.World

/-! Classes under construction. A unit is emitted, verified and turned into a class when its source is
built. -/
namespace QueryMachine

structure MethodDraft where
  ref : MethodRef
  params : List Ty
  returns : Ty
  /-- Root frame; the receiver and the parameters are its first locals. -/
  frame : FrameId
  receiver : Option Local
  locals : List Local
  body : Option Seq

/-- A method that could not be finished, with the code there was. -/
structure RenderFailure where
  unit : String
  method : String
  listing : String
  error : Error

namespace MethodDraft

def create (fs : Frames) (cls name : String) (receiver : Option Ty) (params : List (String × Ty))
    (returns : Ty) : MethodDraft × Frames :=
  let (frame, fs) := fs.newRoot
  let (this, fs) := match receiver with
    | some t =>
      let (l, fs) := fs.allocate frame "this" t.nonNull
      (some l, fs)
    | none => (none, fs)
  let (locals, fs) := fs.allocateAll frame params
  ({ ref := ⟨cls, name, params.map fun (_, t) => t.rep, returns.rep, receiver.isNone⟩
     params := params.map (·.2)
     returns
     frame
     receiver := this
     locals
     body := none }, fs)

def newStatic (fs : Frames) (cls name : String) (params : List (String × Ty)) (returns : Ty) :
    MethodDraft × Frames :=
  create fs cls name none params returns

def newInstance (fs : Frames) (receiver : Ty) (name : String) (params : List (String × Ty))
    (returns : Ty) : Except Error (MethodDraft × Frames) :=
  match receiver.rep.className? with
  | some cls => .ok (create fs cls name (some receiver) params returns)
  | none => .error (.of (.invalidArgument (receiver.text ++ " has no methods")))

def withBody (m : MethodDraft) (body : Seq) : MethodDraft := { m with body := some body }

def withValue (m : MethodDraft) (value : Expr) : MethodDraft := m.withBody (Seq.ret value m.returns)

def callee (m : MethodDraft) : Callee := .method m.ref m.params m.returns

def failure (m : MethodDraft) (error : Error) (listing : String) : RenderFailure :=
  ⟨m.ref.cls, m.ref.name, listing, error⟩

/-- The body inside its frame. The frame is left even when the body fails, and the first failure counts. -/
def emission (m : MethodDraft) (body : Seq) : Emit Unit := do
  Emit.enterFrame m.frame
  let generated ← tryCatch (do
      body
      if m.returns.isVoid then Emit.op (.ret 0)
      return none) fun e => return some e
  match generated with
  | none => Emit.exitFrame m.frame
  | some e => do
    tryCatch (Emit.exitFrame m.frame) fun _ => return ()
    throw e

def render (fs : Frames) (h : Heap) (verifying : Bool) (m : MethodDraft) :
    Except RenderFailure Method :=
  match m.body with
  | none => .error (m.failure (.of (.internal "method has no body")) "")
  | some body =>
    let (result, code) := m.emission body fs Emitter.empty
    -- the count of slots is never lowered: whatever was emitted after it overflowed is lost
    if Emitter.slotLimit < code.maxLocals then .error (m.failure (.of .overflow) "")
    else match result with
    | .error e => .error (m.failure e (Method.listing h code.ops [] []))
    | .ok () => do
      let labels := code.labels.toList
      let listing := Method.listing h code.ops labels code.handlers
      let maxStack ←
        if verifying then
          match verify code.ops labels code.handlers code.maxLocals m.returns.width with
          | .ok n => .ok n
          | .error r => .error (m.failure (.of (.internal ("verification failed: " ++ r.text h))) listing)
        else .ok 0
      match labels.findIdx? (·.isNone) with
      | some l =>
        .error (m.failure (.of (.internal ("label " ++ Op.labelText l ++ " is never bound"))) listing)
      | none =>
        .ok ⟨m.ref, code.ops, (labels.map (·.getD 0)).toArray, code.handlers, code.maxLocals, maxStack⟩

end MethodDraft

structure UnitDraft where
  name : String
  fields : List (String × Ty)
  statics : List (String × Ty)
  methods : List MethodDraft
  prepare : List (String × Value)

namespace UnitDraft

def new (name : String) : UnitDraft := ⟨name, [], [], [], []⟩

def isEmpty (u : UnitDraft) : Bool := u.fields.isEmpty && u.statics.isEmpty && u.methods.isEmpty

def addField (u : UnitDraft) (name : String) (type : Ty) : Except Error UnitDraft :=
  if u.fields.any (·.1 == name) then
    .error (.of (.invalidArgument ("field '" ++ name ++ "' already exists on " ++ u.name)))
  else .ok { u with fields := u.fields ++ [(name, type)] }

def addStatic (u : UnitDraft) (name : String) (type : Ty) : Except Error UnitDraft :=
  if u.statics.any (·.1 == name) then
    .error (.of (.invalidArgument ("static '" ++ name ++ "' already exists on " ++ u.name)))
  else .ok { u with statics := u.statics ++ [(name, type)] }

def addMethod (u : UnitDraft) (m : MethodDraft) : Except Error UnitDraft :=
  if m.ref.cls != u.name then
    .error (.of (.internal ("method " ++ m.ref.text ++ " added to unit " ++ u.name)))
  else if u.methods.any (·.ref.name == m.ref.name) then
    .error (.of (.invalidArgument ("method '" ++ m.ref.name ++ "' already exists on " ++ u.name)))
  else .ok { u with methods := u.methods ++ [m] }

def render (fs : Frames) (h : Heap) (verifying : Bool) (u : UnitDraft) : Except RenderFailure Class := do
  let methods ← u.methods.mapM (·.render fs h verifying)
  return ⟨u.name, u.fields.map fun (n, t) => (n, t.rep), u.statics.map fun (n, t) => (n, t.rep), methods⟩

end UnitDraft

namespace Class

def dependencies (c : Class) : List String :=
  (c.methods.flatMap fun m => m.ops.toList.filterMap Op.memberClass?).eraseDups.filter (· != c.name)

def disassemble (h : Heap) (c : Class) : String := String.join (c.methods.map (·.disassemble h))

end Class

end QueryMachine
