import QueryMachine.Access.Property
import QueryMachine.Expr.Place
import QueryMachine.Ty.Unify
import QueryMachine.Unit.Struct

/-! Records under construction. While every name is an identifier and every merged source a struct, the record
is closed and becomes a struct; after that it is open for good. Nulls set no field, and of two values under
one name the later counts. -/
namespace QueryMachine

inductive RecordDraft.Step where
  | field (name : String) (value : Expr)
  | merge (source : Expr)

inductive RecordDraft.Entries where
  | closed (fields : List (String × Expr))
  | free (steps : List RecordDraft.Step)

structure RecordDraft where
  frame : FrameId
  prelude : List Seq
  entries : RecordDraft.Entries

namespace RecordDraft

def isIdentifierStart (c : Char) : Bool := c.isAlpha || c == '_'

def isIdentifier (name : String) : Bool :=
  match name.toList with
  | [] => false
  | c :: cs => isIdentifierStart c && cs.all fun c => isIdentifierStart c || c.isDigit

def new (parent : FrameId) : Build RecordDraft := return ⟨← Build.newChild parent, [], .closed []⟩

def newOpen (parent : FrameId) : Build RecordDraft := return ⟨← Build.newChild parent, [], .free []⟩

def Entries.steps : Entries → List Step
  | .closed fields => fields.map fun (name, value) => .field name value
  | .free steps => steps

def addField (r : RecordDraft) (name : String) (value : Expr) : RecordDraft :=
  match r.entries, isIdentifier name with
  | .closed fields, true => { r with entries := .closed (fields ++ [(name, value)]) }
  | entries, _ => { r with entries := .free (entries.steps ++ [.field name value]) }

def add (r : RecordDraft) (name : String) (value : Expr) : Build RecordDraft := do
  if value.type.isVoid then Build.fail (.invalidArgument ("field '" ++ name ++ "' has no value"))
  return r.addField name value

def mergeError {α : Type} (t : Ty) : Build α :=
  Build.fail (.invalidArgument ("cannot merge fields of " ++ t.text))

def addFields (a : PropertyAccess) (held : Local) (r : RecordDraft) :
    List (String × Ty) → Build RecordDraft
  | [] => return r
  | (name, _) :: rest => do
    let value ← a.read held.read name
    let r ← r.add name value
    addFields a held r rest

def merge (r : RecordDraft) (source : Expr) : Build RecordDraft := do
  match PropertyAccess.of? source.type with
  | none => mergeError source.type
  | some a =>
    match r.entries, source.type with
    | .closed _, .struct false _ fields =>
      let held ← Build.temp r.frame "merge" source.type
      addFields a held { r with prelude := r.prelude ++ [held.write source] } fields
    | entries, _ => return { r with entries := .free (entries.steps ++ [.merge source]) }

def position? (layout : List (String × Ty)) (name : String) : Option Nat :=
  layout.findIdx? fun (n, _) => Text.Uppercase.text n == Text.Uppercase.text name

def layout (fields : List (String × Expr)) : List (String × Ty) :=
  fields.foldl (fun layout (name, value) =>
    match position? layout name with
    | some i => layout.modify i fun (n, t) => (n, Ty.unify t value.type)
    | none => layout ++ [(name, value.type)]) []

/-- Unless the value on top of the stack is null, go on; else drop the `width` slots on top and go to
`next`. -/
def skipNull (type : Ty) (width : Nat) (next : Label) : Emit Unit := do
  if type.isNullable then
    let put ← Emit.newLabel
    Emit.ops [.dup 1, .ifNonNull put, .pop width, .jump next]
    Emit.mark put

def putField (cls : String) (layout : List (String × Ty)) (object : Nat) (name : String) (value : Expr) :
    Emit Unit := do
  match position? layout name >>= fun i => layout[i]? with
  | none => pure ()
  | some field =>
    let next ← Emit.newLabel
    Emit.op (.load object)
    value.generate
    skipNull value.type 2 next
    Emit.cast field.2 value.type
    Emit.op (.putField (Struct.fieldRef cls field))
    Emit.mark next

def closedValue (frame : FrameId) (prelude : List Seq) (fields : List (String × Expr)) : Build Expr := do
  let layout := layout fields
  let type ← Struct.type layout
  match type.rep.className? with
  | none => Build.fail (.internal ("struct type " ++ type.text ++ " has no class"))
  | some cls =>
    let object ← Build.temp frame "record" type
    return ⟨type, do
      Emit.enterFrame frame
      prelude.forM id
      let slot ← Emit.slotOf object
      Emit.ops [.new cls, .store slot]
      fields.forM fun (name, value) => putField cls layout slot name value
      Emit.op (.load slot)
      Emit.exitFrame frame⟩

def stepCode (frame : FrameId) (record : Local) : Step → Build Seq
  | .field name value => return do
    let next ← Emit.newLabel
    Emit.op (.load (← Emit.slotOf record))
    Emit.op (.const (.string name))
    value.generate
    Emit.box value.type
    skipNull value.type 3 next
    Emit.op (.native .recordPut)
    Emit.mark next
  | .merge source => do
    match PropertyAccess.of? source.type with
    | none => mergeError source.type
    | some a =>
      let held ← Build.temp frame "merge" source.type.nonNull
      let merge ← a.mergeInto record.read held.read
      return do
        let skip ← Emit.newLabel
        source.generate
        let _ ← Emit.nullTest source.type skip
        Emit.op (.store (← Emit.slotOf held))
        merge
        Emit.mark skip

def openValue (frame : FrameId) (prelude : List Seq) (steps : List Step) : Build Expr := do
  let type := Ty.record.nonNull
  let record ← Build.temp frame "record" type
  let codes ← steps.mapM (stepCode frame record)
  return ⟨type, do
    Emit.enterFrame frame
    prelude.forM id
    let slot ← Emit.slotOf record
    Emit.ops [.native .newRecord, .store slot]
    codes.forM id
    Emit.op (.load slot)
    Emit.exitFrame frame⟩

def value (r : RecordDraft) : Build Expr :=
  match r.entries with
  | .closed fields => closedValue r.frame r.prelude fields
  | .free steps => openValue r.frame r.prelude steps

end RecordDraft

end QueryMachine
