import QueryMachine.Proofs.Program.Retention

/-! Where shared constants come from: building shares no values but the literals that are written in the trees. -/
namespace QueryMachine

def Session.Shares (P : Value → Prop) (s : Session) : Prop :=
  ∀ k ∈ s.constants.hoisted, k.type = s.heap.literalType k.value ∧ P k.value

variable {P : Value → Prop} {s : Session} {v : Value}

theorem Session.Shares.hoist (shares : s.Shares P) (may : P v) :
    Session.Shares P { s with constants := (s.constants.hoist s.heap (s.heap.literalType v) v).2 } := by
  unfold Session.Shares Constants.hoist
  split
  · exact shares
  · intro k inside
    rcases List.mem_append.1 inside with old | new
    · exact shares k old
    · rw [List.mem_singleton.1 new]
      exact ⟨rfl, may⟩

theorem Session.Shares.literal (shares : s.Shares P) (may : P v) :
    Session.Shares P { s with constants := (s.constants.literal s.heap v).2 } := by
  cases v with
  | null | boxed _ | int _ | long _ | float _ | double _ | string _ => exact shares
  | _ => exact shares.hoist may

def sharing (P : Value → Prop) (context : ContextId) : Session.Invariant where
  context
  admits := P
  holds := Session.Shares P
  frames _ shares := shares
  site _ shares := shares
  literal may shares := shares.literal may
  learn _ _ _ shares := shares
  announce _ _ shares := shares
  add _ shares := shares

theorem Compiler.addAllShares {es : List Entry} (may : ∀ e ∈ es, ∀ v ∈ e.node.literals, P v) {c : Compiler}
    (shares : c.session.Shares P) : (c.addAll es).session.Shares P :=
  addAllRetains (J := sharing P c.context) rfl may shares

end QueryMachine
