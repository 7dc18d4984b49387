import QueryMachine.Expr.Basic

/-! Places that can be read and written at one type. -/
namespace QueryMachine

structure Place where
  type : Ty
  read : Expr
  write : Expr → Seq

namespace Local

def read (l : Local) : Expr :=
  ⟨l.type, do Emit.load (← Emit.slotOf l) l.type.width⟩

def write (l : Local) (value : Expr) : Seq := do
  value.generateAs l.type
  Emit.store (← Emit.slotOf l) l.type.width

end Local

namespace Place

def ofLocal (l : Local) : Place := ⟨l.type, l.read, l.write⟩

def field (target : Expr) (name : String) (type : Ty) : Place :=
  let f : FieldRef := ⟨target.type.rep.className?.getD "Object", name, type.rep⟩
  { type
    read := ⟨type, do target.generate; Emit.op (.getField f)⟩
    write := fun value => do
      target.generate
      value.generateAs type
      Emit.op (.putField f) }

def static (cls name : String) (type : Ty) : Place :=
  let f : FieldRef := ⟨cls, name, type.rep⟩
  { type
    read := ⟨type, Emit.op (.getStatic f)⟩
    write := fun value => do
      value.generateAs type
      Emit.op (.putStatic f) }

def entry (map key : Expr) (value : Ty) : Place :=
  let type := value.boxed.orNull
  { type
    read := ⟨type, do
      map.generate
      key.generate
      Emit.box key.type
      Emit.op (.native .mapGet)
      Emit.downcast type⟩
    write := fun value => do
      map.generate
      key.generate
      Emit.box key.type
      value.generateAs type
      Emit.op (.native .mapPut) }

def element (list index : Expr) (elem : Ty) : Place :=
  let type := elem.boxed.orNull
  { type
    read := ⟨type, do
      list.generate
      index.generateAs .int32
      Emit.op (.native .listGet)
      Emit.downcast type⟩
    write := fun value => do
      list.generate
      index.generateAs .int32
      value.generateAs type
      Emit.op (.native .listSet) }

def recordField (record : Expr) (name : String) : Place :=
  { type := .any
    read := ⟨.any, do
      record.generate
      Emit.op (.const (.string name))
      Emit.op (.native .recordGet)⟩
    write := fun value => do
      record.generate
      Emit.op (.const (.string name))
      value.generateAs .any
      Emit.op (.native .recordPut) }

end Place

end QueryMachine
