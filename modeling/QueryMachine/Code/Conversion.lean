import QueryMachine.Code.Op

/-! Conversions between primitives, and between primitives and boxes. -/
namespace QueryMachine.Conversion

/-- Booleans travel as the ints 0 and 1; a narrower integer is cut after the change of kind. -/
def primitive (source target : Prim) : List Op :=
  if source = target then []
  else if source = .boolean ∨ target = .boolean then
    (if source.num = .int then [] else [.convert source.num .int])
      ++ if target = .boolean then [.narrow .boolean]
        else if target.num = .int then [] else [.convert .int target.num]
  else
    (if source.num = target.num then [] else [.convert source.num target.num])
      ++ if (target = .int8 ∨ target = .int16) ∧ target.kind.rank < source.kind.rank then [.narrow target]
        else []

def boxOf? (r : Rep) : Option Prim := r.className?.bind Prim.ofBoxClass?

def ops? (source target : Rep) : Option (List Op) :=
  match source, target with
  | .prim s, .prim t => some (primitive s t)
  | .prim s, t => (boxOf? t).map fun t => primitive s t ++ [.box t]
  | s, .prim t => (boxOf? s).map fun s => .unbox s :: primitive s t
  | _, _ => none

end QueryMachine.Conversion
