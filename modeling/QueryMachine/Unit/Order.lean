/-! Load order: a depth-first walk that lists a unit after the units it uses, cycles apart. -/
namespace QueryMachine.LoadOrder

structure Walk where
  seen : List Nat
  order : List Nat

/-- Visit a unit. Each nested visit marks one more unit as seen, so as much fuel as there are units is
enough. -/
def visit (uses : Nat → List Nat) : Nat → Walk → Nat → Walk
  | 0, w, _ => w
  | fuel + 1, w, i =>
    if w.seen.contains i then w
    else
      let w := (uses i).foldl (visit uses fuel) { w with seen := i :: w.seen }
      { w with order := w.order ++ [i] }

def of (n : Nat) (uses : Nat → List Nat) : List Nat :=
  ((List.range n).foldl (visit uses (n + 1)) ⟨[], []⟩).order

end QueryMachine.LoadOrder
