import QueryMachine.Access.Deferred
import QueryMachine.Access.Index
import QueryMachine.Access.Property

/-! What can be done with the values of a type. -/
namespace QueryMachine

inductive Capability where
  | property
  | index
  | iterate
  | resolve
  | outcome
  | unify
  | compare
  | any
  | void
  | isPromise
  | isResult
  deriving DecidableEq, Repr

namespace Capability

def all : List Capability :=
  [property, index, iterate, resolve, outcome, unify, compare, any, void, isPromise, isResult]

def name : Capability → String
  | property => "property"
  | index => "index"
  | iterate => "iterate"
  | resolve => "promise"
  | outcome => "result"
  | unify => "unify"
  | compare => "compare"
  | any => "any"
  | void => "void"
  | isPromise => "is_promise"
  | isResult => "is_result"

def holds (t : Ty) : Capability → Bool
  | property => (PropertyAccess.of? t).isSome
  | index => (IndexAccess.of? t).isSome
  | iterate => (IterateAccess.of? t).isSome
  | resolve => (Deferred.promised? t).isSome
  | outcome => (Deferred.captured? t).isSome
  | unify => t.kind.isComposite
  | compare => t.isComparable
  | any => t.isAny
  | void => t.isVoid
  | isPromise => t.isPromise
  | isResult => t.isResult

end Capability

namespace Ty

def capabilities (t : Ty) : List Capability := Capability.all.filter (Capability.holds t)

/-- Named parts of a type: fields and properties with their types, variants of an enumeration. -/
def memberTexts : Ty → List String
  | .struct _ _ fs | .host _ _ fs _ => fs.map fun (n, t) => n ++ ": " ++ t.text
  | .atom _ (.enum _ variants) => variants
  | _ => []

end Ty

end QueryMachine
