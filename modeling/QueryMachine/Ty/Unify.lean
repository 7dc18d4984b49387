import QueryMachine.Ty.Basic

/-! The common type of two types, for operands that meet in one place. -/
namespace QueryMachine.Ty

/-- Common type of two types that are both primitive or both references; `parts` is the answer where both
are composite and share a representation. -/
def join (parts l r : Ty) : Ty :=
  let lk := l.kind
  let rk := r.kind
  if lk = .any ∨ rk = .any then any
  else if (lk.isInteger && rk.isInteger) || (lk.isFloat && rk.isFloat) then
    if lk.rank < rk.rank then r else l
  else if lk.isNumeric && rk.isNumeric then
    if l.isPrimitive then float64 else boxedOf .float64
  else if lk = .boolean ∧ rk = .boolean then l
  else if l.rep = r.rep then
    if lk.isComposite then parts else l
  else any

def unify (l r : Ty) : Ty :=
  let parts := match l, r with
    | .carrier _ c s, .carrier _ d t => if c = d then .carrier true c (unify s t).boxed else any
    | .map _ k v, .map _ k' v' => .map true (unify k k').boxed (unify v v').boxed
    | .struct _ a fs, .struct _ b gs => if a = b ∧ fs = gs then l else any
    | .atom _ .record, .atom _ .record => l
    | _, _ => any
  let whole := if l.isPrimitive && r.isPrimitive then join parts l r else join parts l.boxed r.boxed
  whole.withNull (l.isNullable || r.isNullable)

def unifyAll : List Ty → Except Error Ty
  | [] => .error (.of .emptyTypeList)
  | t :: ts => .ok (ts.foldl unify t)

def unifyOrAny : List Ty → Ty
  | [] => any
  | t :: ts => ts.foldl unify t

end QueryMachine.Ty
