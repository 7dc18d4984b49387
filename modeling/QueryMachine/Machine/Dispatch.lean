import QueryMachine.Machine.Native

/-! Dynamic operations. A call site remembers the adapter of the last sort of object it met; for another sort
it asks the linker, which makes each adapter once. -/
namespace QueryMachine.Machine

def adapterFor (lib : Library) : Tag → Except Fault Adapter
  | .record => .ok .record
  | .map => .ok .map
  | .list => .ok .list
  | .struct cls =>
    if lib.contains cls then .ok (.struct cls) else .error (.failed ("struct " ++ cls ++ " is not loaded"))
  | .host cls => .ok (.host cls)
  | .boxed cls | .enum cls => .ok (.scalar cls)
  | t => .ok (.scalar t.text)

def link (lib : Library) (tag : Tag) : Run Adapter := do
  let w ← get
  match w.linker.adapters.lookup tag with
  | some a => return a
  | none =>
    let a ← Run.lift (adapterFor lib tag)
    set { w with linker := ⟨w.linker.adapters ++ [(tag, a)], w.linker.generated + 1⟩ }
    return a

def adapterAt (lib : Library) (site : Nat) (target : Value) : Run Adapter := do
  let w ← get
  match w.heap.tag? target with
  | none =>
    if target.isNull then Run.fault .nullPointer
    else Run.fault (.unsupported ("dynamic " ++ w.heap.className target))
  | some tag => match w.sites.lookup site with
    | some (known, a) => if known = tag then return a else relink tag
    | none => relink tag
where
  relink (tag : Tag) : Run Adapter := do
    let a ← link lib tag
    modify fun w => { w with sites := (site, tag, a) :: w.sites.filter (·.1 != site) }
    return a

abbrev Call := Method → List Value → Run Value

def accessor (lib : Library) (call : Call) (cls name : String) (args : List Value) : Run Value :=
  match (lib.class? cls).bind (·.method? name) with
  | some m => call m (slotsOf args)
  | none => Run.fault (.failed ("struct " ++ cls ++ " has no " ++ name ++ " accessor"))

def propertyOf (lib : Library) (call : Call) (a : Adapter) (target : Value) (name : String) : Run Value := do
  let h ← Run.heap
  match a, target with
  | .record, .record r => return ((h.record r).get? name).getD .null
  | .map, .map m => return (h.lookup m (.string name)).getD .null
  | .struct cls, _ => accessor lib call cls "get" [target, .string name]
  | .host _, .host o => Run.orFault (.propertyNotFound name) ((h.host o).property? name)
  | .host cls, _ => Run.fault (.classCast cls (h.className target))
  | .list, _ | .scalar _, _ => Run.fault (.propertyNotFound name)
  | .record, _ | .map, _ => return .null

def Adapter.name : Adapter → String
  | .record => "Record"
  | .map => "Map"
  | .list => "List"
  | .struct cls | .host cls | .scalar cls => cls

def indexOf (lib : Library) (call : Call) (a : Adapter) (target key : Value) : Run Value := do
  let h ← Run.heap
  match a, target with
  | .record, _ | .struct _, _ => match key.string? with
    | some name => propertyOf lib call a target name
    | none => Run.fault (.classCast "String" (h.className key))
  | .map, .map m => return (h.lookup m key).getD .null
  | .map, _ => return .null
  | .list, _ => match key.integer? with
    | none => Run.fault (.classCast "Integer" (h.className key))
    | some i => match target with
      | .list l =>
        let items := h.list l
        let i ← Run.lift (bounds i.toInt items.size)
        return (items[i]?).getD .null
      | _ => Run.fault (.classCast "List" (h.className target))
  | .host _, _ | .scalar _, _ => Run.fault (.unsupported ("index into " ++ Adapter.name a))

def itemsOf (a : Adapter) (target : Value) : Run (Array Value) := do
  let h ← Run.heap
  match a, target with
  | .list, .list l => return h.list l
  | .list, _ => return #[]
  | _, _ => Run.fault (.unsupported ("iterate over " ++ Adapter.name a))

def fieldNamesOf (lib : Library) (call : Call) (a : Adapter) (target : Value) : Run (List String) := do
  let h ← Run.heap
  match a, target with
  | .record, .record r => return (h.record r).names
  | .map, .map m => return (h.map m).filterMap fun (k, _) => k.string?
  | .host _, .host o => return (h.host o).propertyNames
  | .struct cls, _ =>
    match ← accessor lib call cls "field_names" [target] with
    | .list l => return ((← Run.heap).list l).toList.filterMap Value.string?
    | _ => return []
  | _, _ => return []

def mergeFields (lib : Library) (call : Call) (a : Adapter) (source : Value) (r : Address) : Run Unit := do
  (← fieldNamesOf lib call a source).forM fun name => do
    let v ← propertyOf lib call a source name
    if !v.isNull then
      let h ← Run.heap
      Run.setHeap (h.setRecord r ((h.record r).put name v))

def dynamic (lib : Library) (call : Call) (site : Nat) (d : Dynamic) (s : Stack) : Run Stack := do
  match d with
  | .getProperty name =>
    let (target, s) ← Run.lift (popRef s)
    return push (← propertyOf lib call (← adapterAt lib site target) target name) s
  | .index =>
    let (key, s) ← Run.lift (pop s)
    let (target, s) ← Run.lift (popRef s)
    return push (← indexOf lib call (← adapterAt lib site target) target key) s
  | .iterate =>
    let (target, s) ← Run.lift (popRef s)
    let items ← itemsOf (← adapterAt lib site target) target
    return (← Run.alloc (·.newList items)) :: s
  | .mergeFields =>
    let (source, s) ← Run.lift (pop s)
    let (writer, s) ← Run.lift (popRef s)
    match writer with
    | .record r =>
      if source.isNull then return s
      mergeFields lib call (← adapterAt lib site source) source r
      return s
    | _ => Run.fault (.classCast "Record" ((← Run.heap).className writer))
  | .fieldNames =>
    let (target, s) ← Run.lift (popRef s)
    let names ← fieldNamesOf lib call (← adapterAt lib site target) target
    return (← Run.alloc (·.newList (names.map Value.string).toArray)) :: s

end QueryMachine.Machine
