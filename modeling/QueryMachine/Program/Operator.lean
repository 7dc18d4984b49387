import QueryMachine.Error
import QueryMachine.Ty.ValueType
import QueryMachine.Value.Basic

/-! Operator trees: what a planner asks to be compiled. -/
namespace QueryMachine

inductive Operator where
  | literal
  | null
  | array
  | map
  | record
  | property
  | index
  | add
  | sub
  | mult
  | div
  | mod
  | negate
  | not
  | and
  | or
  | eq
  | neq
  | lt
  | ltEq
  | gt
  | gtEq
  | compare
  | isNull
  | coalesce
  | cond
  | local
  | argument
  | transform
  | length
  | resolve
  | cast
  | call
  | invoke
  | subquery
  deriving DecidableEq, Repr

namespace Operator

def all : List Operator :=
  [literal, null, array, map, record, property, index, add, sub, mult, div, mod, negate, not, and, or, eq, neq,
    lt, ltEq, gt, gtEq, compare, isNull, coalesce, cond, .local, argument, transform, length, resolve, cast, call,
    invoke, subquery]

def name : Operator → String
  | literal => "LITERAL"
  | null => "NULL"
  | array => "ARRAY"
  | map => "MAP"
  | record => "RECORD"
  | property => "PROPREF"
  | index => "INDEX"
  | add => "ADD"
  | sub => "SUB"
  | mult => "MULT"
  | div => "DIV"
  | mod => "MOD"
  | negate => "NEGATE"
  | not => "NOT"
  | and => "AND"
  | or => "OR"
  | eq => "EQ"
  | neq => "NEQ"
  | lt => "LT"
  | ltEq => "LTEQ"
  | gt => "GT"
  | gtEq => "GTEQ"
  | compare => "COMPARE"
  | isNull => "IS_NULL"
  | coalesce => "COALESCE"
  | cond => "IF"
  | .local => "LOCAL"
  | argument => "ARGUMENT"
  | transform => "TRANSFORM"
  | length => "LENGTH"
  | resolve => "RESOLVE"
  | cast => "CAST"
  | call => "CALL"
  | invoke => "INVOKE"
  | subquery => "SUBQUERY"

def parse (s : String) : Except Error Operator :=
  match all.find? (·.name == s) with
  | some o => .ok o
  | none => .error (.of (.unrecognizedOperator s))

end Operator

mutual

inductive Node where
  | mk (operator : Operator) (args : List Arg) (location : Location)

inductive Arg where
  | node (n : Node)
  | nodes (ns : List Node)
  | name (s : String)
  | names (ss : List String)
  | value (v : Value)
  | type (t : ValueType)

end

end QueryMachine
