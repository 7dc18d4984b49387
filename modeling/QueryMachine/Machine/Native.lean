import QueryMachine.Machine.Core
import QueryMachine.Text.Units
import QueryMachine.Text.Uppercase
import QueryMachine.Value.Text

/-! The library calls of the machine. -/
namespace QueryMachine.Machine

def expectString (h : Heap) : Value → Except Fault String
  | .string s => .ok s
  | .null => .error .nullPointer
  | v => .error (.classCast "String" (h.className v))

def expectRecord (h : Heap) : Value → Except Fault Address
  | .record a => .ok a
  | .null => .error .nullPointer
  | v => .error (.classCast "Record" (h.className v))

def expectList (h : Heap) : Value → Except Fault Address
  | .list a => .ok a
  | v => .error (.classCast "List" (h.className v))

def expectMap (h : Heap) : Value → Except Fault Address
  | .map a => .ok a
  | v => .error (.classCast "Map" (h.className v))

def expectPromise (h : Heap) : Value → Except Fault Address
  | .promise a => .ok a
  | v => .error (.classCast "Promise" (h.className v))

def expectTimeout (h : Heap) : Value → Except Fault Timeout
  | .timeout t => .ok t
  | v => .error (.classCast "Timeout" (h.className v))

def bounds (index : Int) (length : Nat) : Except Fault Nat :=
  if 0 ≤ index ∧ index < length then .ok index.toNat else .error (.indexOutOfBounds index length)

def lengthOf (h : Heap) : Value → Except Fault Nat
  | .null => .error .nullPointer
  | .list a => .ok (h.list a).size
  | .map a => .ok (h.map a).length
  | .record a => .ok (h.record a).size
  | .string s => .ok s.length
  | .bytes b => .ok b.length
  | .object a => .ok (h.object a).slots.length
  | v => .error (.unsupported ("length of " ++ h.className v))

def plainText (h : Heap) (v : Value) : String := (v.string?).getD (h.text v)

def equalStrings (a b : Value) : Bool :=
  match a.string?, b.string? with
  | some x, some y => x == y
  | _, _ => a.isNull && b.isNull

def compareObjects (h : Heap) (line offset : Int) (a b : Value) : Except Fault Value :=
  match h.compare? a b with
  | some o => .ok (.int (Number.ofOrdering o))
  | none =>
    let culprit := if (h.compare? a a).isNone then a else b
    .error (.notComparable (h.className culprit) line offset)

def readOnly (h : Heap) (n : Native) (s : Stack) : Option (Except Fault Stack) :=
  match n with
  | .listGet => some do
    let (i, s) ← popInt h s
    let (v, s) ← popRef s
    let items := h.list (← expectList h v)
    let i ← bounds i.toInt items.size
    .ok ((items[i]?).getD .null :: s)
  | .length => some do
    let (v, s) ← pop s
    .ok (.int (Int32.ofNat (← lengthOf h v)) :: s)
  | .mapGet => some do
    let (k, s) ← pop s
    let (v, s) ← popRef s
    .ok ((h.lookup (← expectMap h v) k).getD .null :: s)
  | .recordGet => some do
    let (n, s) ← pop s
    let name ← expectString h n
    let (v, s) ← pop s
    .ok (((h.record (← expectRecord h v)).get? name).getD .null :: s)
  | .stringEquals => some do
    let (b, s) ← pop s
    let (a, s) ← pop s
    .ok (bit (equalStrings a b) :: s)
  | .stringUpper => some do
    let (v, s) ← pop s
    .ok (.string (Text.Uppercase.text (← expectString h v)) :: s)
  | .stringHash => some do
    let (v, s) ← pop s
    .ok (.int (Text.Units.hash (← expectString h v)) :: s)
  | .stringConcat => some do
    let (b, s) ← pop s
    let (a, s) ← pop s
    .ok (.string (plainText h a ++ plainText h b) :: s)
  | .objectEquals => some do
    let (b, s) ← pop s
    let (a, s) ← pop s
    .ok (bit (h.equals a b) :: s)
  | .objectCompare line offset => some do
    let (b, s) ← popRef s
    let (a, s) ← popRef s
    .ok ((← compareObjects h line offset a b) :: s)
  | .outcomeSuccess => some do
    let (v, s) ← pop s
    .ok (.success v :: s)
  | .outcomeFailure => some do
    let (v, s) ← pop s
    .ok (.failure (v.fault?.getD .nullPointer) :: s)
  | .outcomeValue => some do
    match ← popRef s with
    | (.success v, s) => .ok (v :: s)
    | (.failure f, _) => .error f
    | (v, _) => .error (.classCast "Outcome" (h.className v))
  | .timeoutCheck => some do
    let (v, s) ← popRef s
    if h.expired (← expectTimeout h v) then .error .timeout else .ok s
  | .propertyNotFound => some do
    let (v, s) ← pop s
    .ok (.throwable (.propertyNotFound (plainText h v)) :: s)
  | .newFault kind => some (.ok (.throwable (.ofKind kind) :: s))
  | _ => none

def await (a : Address) (t : Timeout) : Run Value := do
  let h ← Run.heap
  match h.promise? a with
  | some r => Run.lift r
  | none => match t.deadline with
    | none => Run.never
    | some d =>
      Run.setHeap (h.waitUntil d)
      Run.fault .timeout

/-- Promise of a function applied to the value of another. A settled one is handed on at once, through
`call`. -/
def chain (call : Callback → Value → Run Value) (a : Address) (f : Callback) : Run Value := do
  let h ← Run.heap
  match h.promise? a with
  | some r =>
    let r ← match r with
      | .ok v => Run.attempt (call f v)
      | .error e => pure (.error e)
    Run.alloc (·.newPromise (.settled r))
  | none =>
    let (j, promises, _) := h.promises.derive (fun _ v s => (.ok v, s)) a f ()
    Run.setHeap { h with promises }
    return .promise j

def native (call : Callback → Value → Run Value) (n : Native) (s : Stack) : Run Stack := do
  let h ← Run.heap
  match readOnly h n s with
  | some r => Run.lift r
  | none => match n with
    | .newList => return (← Run.alloc (·.newList #[])) :: s
    | .listAdd =>
      let (item, s) ← Run.lift (pop s)
      let (v, s) ← Run.lift (popRef s)
      let a ← Run.lift (expectList h v)
      Run.setHeap (h.setList a ((h.list a).push item))
      return s
    | .listSet =>
      let (item, s) ← Run.lift (pop s)
      let (i, s) ← Run.lift (popInt h s)
      let (v, s) ← Run.lift (popRef s)
      let a ← Run.lift (expectList h v)
      let i ← Run.lift (bounds i.toInt (h.list a).size)
      Run.setHeap (h.setList a ((h.list a).setIfInBounds i item))
      return s
    | .newMap => return (← Run.alloc (·.newMap [])) :: s
    | .mapPut =>
      let (value, s) ← Run.lift (pop s)
      let (key, s) ← Run.lift (pop s)
      let (v, s) ← Run.lift (popRef s)
      let a ← Run.lift (expectMap h v)
      Run.setHeap (h.setMap a (h.insertEntry (h.map a) key value))
      return s
    | .newRecord => return (← Run.alloc (·.newRecord .empty)) :: s
    | .recordPut =>
      let (value, s) ← Run.lift (pop s)
      let (n, s) ← Run.lift (pop s)
      let name ← Run.lift (expectString h n)
      let (v, s) ← Run.lift (pop s)
      let a ← Run.lift (expectRecord h v)
      Run.setHeap (h.setRecord a ((h.record a).put name value))
      return s
    | .promiseGet =>
      let (t, s) ← Run.lift (popRef s)
      let t ← Run.lift (expectTimeout h t)
      let (p, s) ← Run.lift (popRef s)
      let p ← Run.lift (expectPromise h p)
      return (← await p t) :: s
    | .promiseThen =>
      let (f, s) ← Run.lift (popRef s)
      match f with
      | .function cls name =>
        let (p, s) ← Run.lift (popRef s)
        let p ← Run.lift (expectPromise h p)
        return (← chain call p ⟨cls, name⟩) :: s
      | v => Run.fault (.classCast "Function" (h.className v))
    | _ => return s

end QueryMachine.Machine
