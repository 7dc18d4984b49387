import QueryMachine.Fault

/-! Promises: each settles once, with a value or a fault, and hands its result to the promises derived from
it. A table holds them by number; a derived promise waits in its parent together with the function that
makes its value. -/
namespace QueryMachine

structure Promise (κ α : Type) where
  result : Option (Except Fault α)
  waiting : List (κ × Nat)

namespace Promise

variable {κ α σ : Type}

def pending : Promise κ α := ⟨none, []⟩
def settled (r : Except Fault α) : Promise κ α := ⟨some r, []⟩

def isDone (p : Promise κ α) : Bool := p.result.isSome

end Promise

structure Promises (κ α : Type) where
  table : Array (Promise κ α)

namespace Promises

variable {κ α σ : Type}

def empty : Promises κ α := ⟨#[]⟩

def size (ps : Promises κ α) : Nat := ps.table.size

def result? (ps : Promises κ α) (i : Nat) : Option (Except Fault α) := ps.table[i]?.bind (·.result)

def add (ps : Promises κ α) (p : Promise κ α) : Promises κ α × Nat := (⟨ps.table.push p⟩, ps.size)

/-- A result on its way to a promise, with the function it goes through first. -/
structure Delivery (κ α : Type) where
  via : Option κ
  target : Nat
  result : Except Fault α

def Delivery.arrive (run : κ → α → σ → Except Fault α × σ) (d : Delivery κ α) (s : σ) :
    Except Fault α × σ :=
  match d.via, d.result with
  | some f, .ok v => run f v s
  | _, r => (r, s)

def deliver (run : κ → α → σ → Except Fault α × σ) :
    Nat → List (Delivery κ α) → Promises κ α → σ → Promises κ α × σ
  | 0, _, ps, s => (ps, s)
  | _, [], ps, s => (ps, s)
  | fuel + 1, d :: rest, ps, s =>
    let (r, s) := d.arrive run s
    match ps.table[d.target]? with
    | some ⟨none, waiting⟩ =>
      let onward := waiting.map fun (f, target) => ⟨some f, target, r⟩
      deliver run fuel (onward ++ rest) ⟨ps.table.setIfInBounds d.target (.settled r)⟩ s
    | _ => deliver run fuel rest ps s

def backlog (ps : Promises κ α) : Nat := ps.table.toList.foldr (fun p n => p.waiting.length + n) 0

def settle (run : κ → α → σ → Except Fault α × σ) (i : Nat) (r : Except Fault α) (ps : Promises κ α)
    (s : σ) : Bool × Promises κ α × σ :=
  match ps.table[i]? with
  | some ⟨none, _⟩ => (true, deliver run (ps.backlog + 1) [⟨none, i, r⟩] ps s)
  | _ => (false, ps, s)

/-- A new promise of `f` applied to the value of promise `i`; it settles at once if that one has. -/
def derive (run : κ → α → σ → Except Fault α × σ) (i : Nat) (f : κ) (ps : Promises κ α) (s : σ) :
    Nat × Promises κ α × σ :=
  match ps.table[i]? with
  | some ⟨some r, _⟩ =>
    let (r, s) := Delivery.arrive run ⟨some f, ps.size, r⟩ s
    let (ps, j) := ps.add (.settled r)
    (j, ps, s)
  | some ⟨none, waiting⟩ =>
    let (ps, j) := ps.add .pending
    (j, ⟨ps.table.setIfInBounds i ⟨none, waiting ++ [(f, j)]⟩⟩, s)
  | none =>
    let (ps, j) := ps.add .pending
    (j, ps, s)

end Promises

end QueryMachine
