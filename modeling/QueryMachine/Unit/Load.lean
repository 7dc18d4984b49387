import QueryMachine.Session
import QueryMachine.Unit.Order

/-! Loading the units of a session, once: they are rendered and verified, ordered so that what a unit uses comes
before it, checked for references to units that do not exist, defined and prepared. -/
namespace QueryMachine

/-- Classes that are ready to run, and the state they run in. -/
structure Loaded where
  library : Library
  world : World

namespace Loaded

def empty (heap : Heap) : Loaded := ⟨.empty, .empty heap⟩

def define (l : Loaded) (c : Class) : Except Error Loaded := do
  return ⟨← l.library.define c, l.world.declare c⟩

def text (l : Loaded) : String :=
  let names := (l.library.classes.map (·.name)).mergeSort fun a b => decide (a ≤ b)
  let linker := Text.Layout.fields "DynamicLinker"
    [("adapters", toString l.world.linker.adapters.length), ("generated", toString l.world.linker.generated)]
  Text.Layout.fields "ClassLoader" [("classes", Text.Layout.listing (names.map Text.Quoted.text)), ("linker", linker)]

end Loaded

namespace Load

def constantsUnit? (c : Constants) : Option UnitDraft :=
  if c.hoisted.isEmpty then none
  else some { UnitDraft.new Constants.unitName with
    statics := c.hoisted.map fun k => (k.field.name, k.type)
    prepare := c.hoisted.map fun k => (k.field.name, k.value) }

def isFileChar (c : Char) : Bool := c.isAlphanum || c == '_' || c == '.'

def dumpFile (unit : String) : String :=
  String.ofList (unit.toList.map fun c => if isFileChar c then c else '_') ++ ".txt"

def dumpText (unit listing : String) (e : Error) : String :=
  "unit: " ++ unit ++ "\ncommit: unknown\nerror: " ++ e.text ++ "\n\n" ++ listing

def dump {α : Type} (unit listing : String) (e : Error) : Build α := do
  let s : Session ← get
  if s.config.dumpDirectory.isSome then
    let file := dumpFile unit
    let others := s.dumps.filter fun (name, _) => name != file
    set { s with dumps := others ++ [(file, dumpText unit listing e)] }
  throw (if e.cause.isInternal then e else .of (.internal (unit ++ ": " ++ e.text)))

def render (u : UnitDraft) : Build Class := do
  let s ← get
  match u.render s.frames s.heap s.config.verify with
  | .ok c => return c
  | .error f =>
    if f.error.cause.isInternal then dump (f.unit ++ "." ++ f.method) f.listing f.error
    else throw f.error

/-- Positions of the classes that a class uses, ascending; of classes of one name the last counts. -/
def uses (classes : List Class) (i : Nat) : List Nat :=
  match classes[i]? with
  | none => []
  | some c =>
    let found := c.dependencies.filterMap fun name =>
      (classes.reverse.findIdx? (·.name == name)).map fun j => classes.length - 1 - j
    found.mergeSort fun a b => decide (a ≤ b)

def order (classes : List Class) : List Nat := LoadOrder.of classes.length (uses classes)

def define (classes : List Class) (loaded : Loaded) (c : Class) : Build Loaded := do
  let listing := c.disassemble (← get).heap
  match c.dependencies.find? fun name => !classes.any (·.name == name) with
  | some name => dump c.name listing (.of (.internal (c.name ++ " references unknown unit " ++ name)))
  | none =>
    match loaded.define c with
    | .ok loaded => return loaded
    | .error e => dump c.name listing e

def prepare (loaded : Loaded) (u : UnitDraft) : Build Loaded :=
  u.prepare.foldlM (fun loaded (name, value) =>
    match loaded.world.setStatic u.name name value with
    | (true, world) => return { loaded with world }
    | (false, _) => Build.fail (.internal ("constant " ++ name ++ " has no slot"))) loaded

/-- Load what the session has accumulated; nothing can be added to it afterwards, whether this succeeds or
not. -/
def build : Build Loaded := do
  Build.checkOpen
  let s ← get
  set { s with built := true, units := [] }
  let units := (s.units ++ (constantsUnit? s.constants).toList).filter (!·.isEmpty)
  let classes ← units.mapM render
  let order := order classes
  let loaded ← (order.filterMap (classes[·]?)).foldlM (define classes) (.empty s.heap)
  (order.filterMap (units[·]?)).foldlM prepare loaded

end Load

end QueryMachine
