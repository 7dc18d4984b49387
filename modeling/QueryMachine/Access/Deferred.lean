import QueryMachine.Expr.Basic

/-! Values behind promises and outcomes. Targets are not null when the code runs. -/
namespace QueryMachine.Deferred

def promised? : Ty → Option Ty
  | .carrier _ .promise t => some t
  | _ => none

def captured? : Ty → Option Ty
  | .carrier _ .result t => some t
  | _ => none

def resolve (result : Ty) (timeout target : Expr) : Expr :=
  ⟨result.orNull, do
    target.generate
    timeout.generate
    Emit.op (.native .promiseGet)
    Emit.downcast result.orNull⟩

def resolveLater (target function : Expr) (returns : Ty) : Expr :=
  ⟨(Ty.promise returns).nonNull, do
    target.generate
    function.generate
    Emit.op (.native .promiseThen)⟩

def value (result : Ty) (target : Expr) : Expr :=
  ⟨result.orNull, do
    target.generate
    Emit.op (.native .outcomeValue)
    Emit.downcast result.orNull⟩

end QueryMachine.Deferred
