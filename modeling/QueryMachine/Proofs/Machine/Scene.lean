import QueryMachine.Machine.Exec
import QueryMachine.Proofs.Effects
import QueryMachine.Proofs.Machine.Trace

/-! Moments of a method that is running, and the moments that they come to whatever fuel is left by then. -/
namespace QueryMachine.Machine

structure Moment where
  pc : Nat
  stack : Stack
  locals : List Value
  world : World

/-- A method that is running at a depth of nested calls. -/
structure Scene where
  library : Library
  method : Method
  depth : Nat

namespace Scene

variable (θ : Scene)

def rest (a : Moment) (fuel : Nat) : Except Stop Value × World :=
  exec θ.library fuel θ.depth ⟨θ.method, a.pc, a.stack, a.locals⟩ a.world

def turn (fuel : Nat) (o : Op) (a : Moment) : Except Stop Next × World :=
  step θ.library (enter (exec θ.library fuel) θ.depth) (continueWith θ.library (exec θ.library fuel)) o
    ⟨θ.method, a.pc, a.stack, a.locals⟩ a.world

def Reaches (a b : Moment) : Prop := ∃ k, ∀ fuel, θ.rest a (fuel + k) = θ.rest b fuel

variable {θ} {a b c : Moment} {o : Op} {p q : Nat} {s s' : Stack} {ls ls' : List Value} {w w' : World}

theorem Reaches.refl (a : Moment) : θ.Reaches a a := ⟨0, fun _ => rfl⟩

theorem Reaches.trans (first : θ.Reaches a b) (second : θ.Reaches b c) : θ.Reaches a c := by
  obtain ⟨k, comes⟩ := first
  obtain ⟨n, goes⟩ := second
  refine ⟨n + k, fun fuel => ?_⟩
  rw [← Nat.add_assoc, comes, goes]

theorem reachesNext (here : θ.method.ops[a.pc]? = some o) (goes : ∀ fuel, θ.turn fuel o a = (.ok (.next s ls), w)) :
    θ.Reaches a ⟨a.pc + 1, s, ls, w⟩ := ⟨1, fun fuel => execNext here (goes fuel)⟩

theorem reachesJump (here : θ.method.ops[a.pc]? = some o) (goes : ∀ fuel, θ.turn fuel o a = (.ok (.jump q s ls), w)) :
    θ.Reaches a ⟨q, s, ls, w⟩ := ⟨1, fun fuel => execJump here (goes fuel)⟩

theorem turnCore {r : Except Fault Next} (is : core a.world.heap θ.method o a.stack a.locals = some r) (fuel : Nat) :
    θ.turn fuel o a = Run.lift r a.world := by
  unfold turn
  rw [stepOpen, is]

theorem turnOuter (other : core a.world.heap θ.method o a.stack a.locals = none) (fuel : Nat) :
    θ.turn fuel o a = (outer θ.library (enter (exec θ.library fuel) θ.depth) (continueWith θ.library (exec θ.library fuel))
      o a.stack >>= fun s => return Next.next s a.locals : Run Next) a.world := by
  unfold turn
  rw [stepOpen, other]

theorem next (here : θ.method.ops[p]? = some o) (is : core w.heap θ.method o s ls = some (.ok (.next s' ls'))) :
    θ.Reaches ⟨p, s, ls, w⟩ ⟨p + 1, s', ls', w⟩ :=
  reachesNext (a := ⟨p, s, ls, w⟩) here fun fuel => turnCore (a := ⟨p, s, ls, w⟩) is fuel

theorem jumps (here : θ.method.ops[p]? = some o) (is : core w.heap θ.method o s ls = some (.ok (.jump q s' ls'))) :
    θ.Reaches ⟨p, s, ls, w⟩ ⟨q, s', ls', w⟩ :=
  reachesJump (a := ⟨p, s, ls, w⟩) here fun fuel => turnCore (a := ⟨p, s, ls, w⟩) is fuel

theorem outers (here : θ.method.ops[p]? = some o) (other : core w.heap θ.method o s ls = none)
    (is : ∀ call apply, outer θ.library call apply o s w = (.ok s', w')) :
    θ.Reaches ⟨p, s, ls, w⟩ ⟨p + 1, s', ls, w'⟩ := by
  refine reachesNext (a := ⟨p, s, ls, w⟩) here ?_
  intro fuel
  rw [turnOuter (a := ⟨p, s, ls, w⟩) other, Run.bindOk (is _ _)]
  rfl

theorem calls {n : Native} (here : θ.method.ops[p]? = some (.native n)) (is : readOnly w.heap n s = some (.ok s')) :
    θ.Reaches ⟨p, s, ls, w⟩ ⟨p + 1, s', ls, w⟩ := by
  refine reachesNext (a := ⟨p, s, ls, w⟩) here ?_
  intro fuel
  change ((do return Next.next (← native (continueWith θ.library (exec θ.library fuel)) n s) ls : Run Next)) w = _
  have called : native (continueWith θ.library (exec θ.library fuel)) n s w = (.ok s', w) := by
    have read : Run.heap w = (.ok w.heap, w) := rfl
    unfold native
    rw [Run.bindOk read, is]
    rfl
  rw [Run.bindOk called]
  rfl

end Scene

end QueryMachine.Machine
