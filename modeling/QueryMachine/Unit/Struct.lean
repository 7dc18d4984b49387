import QueryMachine.Session

/-! Closed struct types. Each list of fields gets one unit with a typed field per name, a constructor and the
accessors by which dynamic code reads and writes it. -/
namespace QueryMachine.Struct

def unitStem : String := "struct_"

def fieldRef (cls : String) (field : String × Ty) : FieldRef := ⟨cls, field.1, field.2.rep⟩

def constructorBody (cls : String) (fields : List (String × Ty)) (args : List Local) : Seq := do
  Emit.op (.new cls)
  (fields.zip args).forM fun (field, arg) => do
    Emit.op (.dup 1)
    Emit.load (← Emit.slotOf arg) field.2.width
    Emit.op (.putField (fieldRef cls field))
  Emit.op (.ret 1)

def dispatch (name : Local) (fields : List (String × Ty)) (found : String × Ty → Emit Unit) : Seq := do
  let slot ← Emit.slotOf name
  let missing ← Emit.newLabel
  let labels ← Emit.newLabels fields.length
  Emit.op (.load slot)
  Emit.stringSwitch ((fields.zip labels).map fun (field, l) => (field.1, l)) missing
  (fields.zip labels).forM fun (field, l) => do
    Emit.mark l
    found field
  Emit.mark missing
  Emit.ops [.load slot, .native .propertyNotFound, .throw]

def getterBody (cls : String) (fields : List (String × Ty)) (this name : Local) : Seq := do
  let self ← Emit.slotOf this
  dispatch name fields fun field => do
    Emit.ops [.load self, .getField (fieldRef cls field)]
    Emit.box field.2
    Emit.op (.ret 1)

def setterBody (cls : String) (fields : List (String × Ty)) (this name value : Local) : Seq := do
  let self ← Emit.slotOf this
  let given ← Emit.slotOf value
  dispatch name fields fun field => do
    Emit.ops [.load self, .load given]
    if field.2.isPrimitive then Emit.unbox field.2.boxed.nonNull else Emit.downcast field.2
    Emit.ops [.putField (fieldRef cls field), .ret 0]

def namesBody (fields : List (String × Ty)) : Seq := do
  Emit.op (.native .newList)
  fields.forM fun field => Emit.ops [.dup 1, .const (.string field.1), .native .listAdd]
  Emit.op (.ret 1)

def unit (cls : String) (fields : List (String × Ty)) (type : Ty) (fs : Frames) : UnitDraft × Frames :=
  let (new, fs) := MethodDraft.create fs cls "new" none fields type
  let (get, fs) := MethodDraft.create fs cls "get" (some type) [("name", .string)] .any
  let (put, fs) := MethodDraft.create fs cls "put" (some type) [("name", .string), ("value", .any)] .void
  let (names, fs) := MethodDraft.create fs cls "field_names" (some type) [] (.list .string)
  let body (m : MethodDraft) (make : List Local → Seq) : MethodDraft :=
    m.withBody (make (m.receiver.toList ++ m.locals))
  let missing : Seq := Emit.fail (.internal "accessor without receiver")
  let get := body get fun
    | [this, name] => getterBody cls fields this name
    | _ => missing
  let put := body put fun
    | [this, name, value] => setterBody cls fields this name value
    | _ => missing
  ({ name := cls
     fields
     statics := []
     methods := [body new (constructorBody cls fields), get, put, body names fun _ => namesBody fields]
     prepare := [] }, fs)

def repeated? : List String → List String → Option String
  | _, [] => none
  | seen, name :: rest =>
    let upper := Text.Uppercase.text name
    if seen.contains upper then some name else repeated? (upper :: seen) rest

/-- The struct type of a list of fields. Its unit is added on the first request; the type is remembered even
when the unit is refused. -/
def type (fields : List (String × Ty)) : Build Ty := do
  Build.checkOpen
  match repeated? [] (fields.map (·.1)) with
  | some name => Build.fail (.invalidArgument ("duplicate struct field '" ++ name ++ "'"))
  | none =>
    let s ← get
    match s.structs.lookup fields with
    | some t => return t
    | none =>
      let cls := unitStem ++ toString s.structCount
      let t : Ty := .struct false cls fields
      let (u, frames) := unit cls fields t s.frames
      set { s with frames, structs := s.structs ++ [(fields, t)], structCount := s.structCount + 1 }
      Build.addUnit u
      return t

end QueryMachine.Struct
