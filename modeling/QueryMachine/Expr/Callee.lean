import QueryMachine.Expr.Basic

/-! What can be called with typed arguments. -/
namespace QueryMachine

structure Callee where
  params : List Ty
  returns : Ty
  invoke : List Expr → Except Error Expr

namespace Callee

def checkCount (name : String) (params : List Ty) (args : List Expr) : Except Error Unit :=
  if params.length = args.length then .ok ()
  else .error (.of (.invalidArgument (name ++ " expects " ++ toString params.length ++ " arguments, got "
    ++ toString args.length)))

def generateArgs (params : List Ty) (args : List Expr) : Emit Unit :=
  (params.zip args).forM fun (param, arg) => arg.generateAs param

def inline (name : String) (params : List Ty) (returns : Ty) (body : Emit Unit) : Callee :=
  { params
    returns
    invoke := fun args => do
      checkCount name params args
      return ⟨returns, do generateArgs params args; body⟩ }

def method (ref : MethodRef) (params : List Ty) (returns : Ty) : Callee :=
  inline ref.name params returns (Emit.op (.invoke ref))

def bind (callee : Callee) (bound : List Expr) : Except Error Callee :=
  if callee.params.length < bound.length then
    .error (.of (.invalidArgument ("cannot bind " ++ toString bound.length ++ " of "
      ++ toString callee.params.length ++ " arguments")))
  else .ok
    { params := callee.params.drop bound.length
      returns := callee.returns
      invoke := fun args => callee.invoke (bound ++ args) }

end Callee

end QueryMachine
