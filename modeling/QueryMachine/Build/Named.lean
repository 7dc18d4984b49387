import QueryMachine.Build.Access
import QueryMachine.Build.Arithmetic
import QueryMachine.Build.Catch
import QueryMachine.Build.Collection
import QueryMachine.Build.Comparison
import QueryMachine.Build.Loop

/-! Builders by name, for callers that choose them by data. -/
namespace QueryMachine

inductive Builder where
  | unary (f : Expr → Build Expr)
  | binary (f : Expr → Expr → Build Expr)
  | nary (f : List Expr → Build Expr)

namespace Builder

def ofName? (frame : FrameId) : String → Option Builder
  | "negate" => some (.unary Build.negate)
  | "not" => some (.unary Build.not)
  | "truth" => some (.unary Build.truth)
  | "is_null" => some (.unary fun e => return Build.isNull e)
  | "length" => some (.unary (Build.length frame))
  | "first" => some (.unary (Build.first frame))
  | "outcome" => some (.unary fun e => return Build.outcome e)
  | "outcome_value" => some (.unary (Build.outcomeValue frame))
  | "eq" => some (.binary fun l r => return Build.equality l r false)
  | "neq" => some (.binary fun l r => return Build.equality l r true)
  | "index" => some (.binary (Build.index frame))
  | "resolve" => some (.binary (Build.resolve frame))
  | "and" => some (.nary Build.and)
  | "or" => some (.nary Build.or)
  | "coalesce" => some (.nary Build.coalesce)
  | "list" => some (.nary fun es => return Build.list es)
  | _ => none

end Builder

end QueryMachine
