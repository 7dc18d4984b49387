import QueryMachine.Proofs.Machine.Mirror

/-! Methods that return the outcome of another. One does what the other does, with labels of its own before the other's,
in a region from which every fault is taken to where it becomes a value. -/
namespace QueryMachine

namespace Run

def outcome (r : Run Value) : Run Value := Value.ofOutcome <$> attempt r

theorem outcomeIs (r : Run Value) (w : World) : outcome r w = match r w with
    | (.ok v, w') => (.ok (.success v), w')
    | (.error (.fault f), w') => (.ok (.failure f), w')
    | (.error .never, w') => (.error .never, w') := by
  change (attempt r >>= fun x => pure (Value.ofOutcome x) : Run Value) w = _
  rcases answer : r w with ⟨(f | _) | v, w'⟩
  · exact bindOk (show attempt r w = (.ok (.error f), w') by unfold attempt; rw [answer])
  · exact bindError (show attempt r w = (.error .never, w') by unfold attempt; rw [answer])
  · exact bindOk (show attempt r w = (.ok (.ok v), w') by unfold attempt; rw [answer])

theorem outcomeCongr {r r' : Run Value} {w w' : World} (same : r w = r' w') : outcome r w = outcome r' w' := by
  rw [outcomeIs, outcomeIs, same]

theorem outcomeNever (w : World) : (outcome never w).1 = .error .never := rfl

end Run

structure Method.Captured (host : String) (n : Nat) (m m' : Method) : Prop where
  size : m.ops.size = n + 1
  confined : ∀ pc o, pc < n → m.ops[pc]? = some o → o.Confined host False
  last : m.ops[n]? = some (.ret 1)
  same : ∀ pc o, pc < n → m.ops[pc]? = some o → m'.ops[pc]? = some (o.relabel (· + 4))
  succeeds : m'.ops[n]? = some (.native .outcomeSuccess)
  skips : m'.ops[n + 1]? = some (.jump 3)
  fails : m'.ops[n + 2]? = some (.native .outcomeFailure)
  returns : m'.ops[n + 3]? = some (.ret 1)
  labels : m'.position 0 = 0 ∧ m'.position 1 = n + 1 ∧ m'.position 2 = n + 2 ∧ m'.position 3 = n + 3
  moved : ∀ l, m'.position (l + 4) = m.position l
  inside : ∀ l, m.position l ≤ n
  handlers : m'.handlers = m.handlers.map (Handler.relocate 4) ++ [⟨0, 1, 2, .any⟩]
  locals : m'.maxLocals = m.maxLocals

theorem Op.Confined.weaken {host : String} {o : Op} (confined : o.Confined host False) : o.Confined host True := by
  cases o with
  | ret => exact confined.elim
  | native n => cases n <;> exact confined
  | _ => exact confined

namespace Machine

variable {host : String} {lib lib' : Library} {n : Nat} {m m' : Method}

/-! ### Labels -/

section Labels

variable {k : Nat} (moved : ∀ l, m'.position (l + k) = m.position l)

theorem bisectMoved (cases : List (Int32 × Label)) (f : Label → Label) (key : Int32) (fuel base size : Nat) :
    bisect (cases.map fun c => (c.1, f c.2)) key fuel base size = bisect cases key fuel base size := by
  induction fuel generalizing base size with
  | zero => rfl
  | succ fuel ih =>
    simp only [bisect, List.getElem?_map, Option.any_map]
    split
    · rfl
    · exact ih _ _

theorem caseForMoved (cases : List (Int32 × Label)) (f : Label → Label) (key : Int32) :
    caseFor? (cases.map fun c => (c.1, f c.2)) key = (caseFor? cases key).map f := by
  unfold caseFor?
  rw [bisectMoved, List.length_map, List.getElem?_map]
  cases cases[bisect cases key cases.length 0 cases.length]? with
  | none => rfl
  | some c =>
    change (if c.1 = key then some (f c.2) else none) = Option.map f (if c.1 = key then some c.2 else none)
    split <;> rfl

include moved

theorem branchMoved (taken : Bool) (l : Label) (s : Stack) (ls : List Value) :
    branch m' taken (l + k) s ls = branch m taken l s ls := by
  unfold branch
  rw [moved]

theorem coreMoved (h : Heap) (o : Op) (s : Stack) (ls : List Value) :
    core h m' (o.relabel (· + k)) s ls = core h m o s ls := by
  cases o with
  | jump l => simp only [Op.relabel, core, moved]
  | ifZero c l => simp only [Op.relabel, core, branchMoved moved]
  | ifCmp c l => simp only [Op.relabel, core, branchMoved moved]
  | ifNull l => simp only [Op.relabel, core, branchMoved moved]
  | ifNonNull l => simp only [Op.relabel, core, branchMoved moved]
  | lookup cases default =>
    have goes (i : Int32) : m'.position (((caseFor? cases i).map (· + k)).getD (default + k)) =
        m.position ((caseFor? cases i).getD default) := by
      cases caseFor? cases i <;> exact moved _
    refine congrArg some (bind_congr fun popped => ?_)
    obtain ⟨i, s⟩ := popped
    change Except.ok (Next.jump (m'.position ((caseFor? (cases.map fun c => (c.1, c.2 + k)) i).getD (default + k))) s ls) = _
    rw [caseForMoved cases (· + k), goes]
  | _ => rfl

theorem stepMoved (call : Call) (apply : Callback → Value → Run Value) (o : Op) {a : Activation} (is : a.method = m) :
    step lib call apply (o.relabel (· + k)) { a with method := m' } = step lib call apply o a := by
  subst is
  unfold step
  refine bind_congr fun h => ?_
  rw [coreMoved moved]
  cases known : core h a.method o a.stack a.locals with
  | some r => rfl
  | none =>
    have plain : o.targets = [] := by
      cases o <;> first | rfl | cases known
    rw [Emit.relabelPlain plain]

end Labels

def Stays (m : Method) : Next → Prop
  | .next _ _ => True
  | .jump pc _ _ => ∃ l, pc = m.position l
  | .done _ => False

theorem turnStays {fuel depth : Nat} {o : Op} {a : Activation} (confined : o.Confined host False) (w : World) {x : Next}
    (is : (turn lib fuel depth o a w).1 = .ok x) : Stays a.method x := by
  have lands := turnLands w is
  cases x with
  | next => trivial
  | jump => exact lands.2
  | done =>
    obtain ⟨n, rfl⟩ := lands
    exact confined.elim

/-! ### Runs -/

section Runs

variable (captured : m.Captured host n m')
include captured

theorem handlerCaptured {pc : Nat} (low : pc ≤ n) (f : Fault) :
    m'.handlerFor? pc f = some ((m.handlerFor? pc f).getD (n + 2)) := by
  obtain ⟨start, stop, target, _⟩ := captured.labels
  have same : (fun h : Handler => m'.position (h.relocate 4).start ≤ pc && pc < m'.position (h.relocate 4).stop &&
      f.caughtBy (h.relocate 4).filter) = fun h => m.position h.start ≤ pc && pc < m.position h.stop && f.caughtBy h.filter := by
    funext h
    change (decide (m'.position (h.start + 4) ≤ pc) && decide (pc < m'.position (h.stop + 4)) && f.caughtBy h.filter) = _
    rw [captured.moved, captured.moved]
  unfold Method.handlerFor?
  rw [captured.handlers, List.find?_append, List.find?_map, Function.comp_def, same]
  cases m.handlers.find? _ with
  | some h =>
    change some (m'.position (h.target + 4)) = _
    rw [captured.moved]
    rfl
  | none =>
    have caught : f.caughtBy .any = true := rfl
    have below : pc < n + 1 := Nat.lt_succ_of_le low
    simp [start, stop, target, below, caught]

theorem returnRuns (fuel depth : Nat) (v : Value) (ls : List Value) (s : Stack) (w : World) :
    exec lib (fuel + 1) depth ⟨m', n + 3, v :: s, ls⟩ w = (.ok v, w) :=
  execDone captured.returns rfl

theorem failureRuns (fuel depth : Nat) (f : Fault) (ls : List Value) (w : World) :
    exec lib (fuel + 2) depth ⟨m', n + 2, [.throwable f], ls⟩ w = (.ok (.failure f), w) := by
  have goes : turn lib (fuel + 1) depth (.native .outcomeFailure) ⟨m', n + 2, [.throwable f], ls⟩ w =
      (.ok (.next [.failure f] ls), w) := rfl
  rw [execNext captured.fails goes]
  exact returnRuns captured fuel depth _ ls [] w

theorem successRuns (fuel depth : Nat) (v : Value) (ls : List Value) (s : Stack) (w : World) :
    exec lib (fuel + 3) depth ⟨m', n, v :: s, ls⟩ w = (.ok (.success v), w) := by
  have goes : turn lib (fuel + 2) depth (.native .outcomeSuccess) ⟨m', n, v :: s, ls⟩ w =
      (.ok (.next (.success v :: s) ls), w) := rfl
  have jumps : turn lib (fuel + 1) depth (.jump 3) ⟨m', n + 1, .success v :: s, ls⟩ w =
      (.ok (.jump (m'.position 3) (.success v :: s) ls), w) := rfl
  rw [execNext captured.succeeds goes, execJump captured.skips jumps, captured.labels.2.2.2]
  exact returnRuns captured fuel depth _ ls s w

theorem faultCaptured {fuel fuel' depth : Nat} (runs : ∀ a : Activation, a.method = m → a.pc ≤ n →
      Mirrors host (Run.outcome (exec lib fuel depth a)) (exec lib' fuel' depth { a with method := m' }))
    (enough : 2 ≤ fuel') {a : Activation} (is : a.method = m) (low : a.pc ≤ n) (f : Fault) :
    Mirrors host (Run.outcome (restRun (exec lib fuel depth) a (.error (.fault f))))
      (restRun (exec lib' fuel' depth) { a with method := m' } (.error (.fault f))) := by
  simp only [restRun, handlerCaptured captured low f, is]
  cases handled : m.handlerFor? a.pc f with
  | some pc =>
    obtain ⟨h, _, rfl⟩ := Option.map_eq_some_iff.1 handled
    exact runs _ rfl (captured.inside h.target)
  | none =>
    obtain ⟨k, rfl⟩ := Nat.exists_eq_add_of_le' enough
    intro w foreign _
    change exec lib' (k + 2) depth ⟨m', n + 2, [.throwable f], a.locals⟩ w = _ ∧ _
    rw [failureRuns captured]
    exact ⟨rfl, foreign⟩

theorem capturedRuns (beside : Library.Beside host lib lib') (confined : lib.Confined host) {fuel fuel' : Nat}
    (enough : fuel + 3 ≤ fuel') (depth : Nat) {a : Activation} (is : a.method = m) (low : a.pc ≤ n) :
    Mirrors host (Run.outcome (exec lib fuel depth a)) (exec lib' fuel' depth { a with method := m' }) := by
  induction fuel generalizing fuel' a with
  | zero =>
    intro w _ ends
    rw [Run.outcomeIs] at ends
    exact absurd rfl ends
  | succ fuel ih =>
    obtain ⟨fuel', rfl⟩ : ∃ k, fuel' = k + 1 := ⟨fuel' - 1, by omega⟩
    have enough : fuel + 3 ≤ fuel' := by omega
    have runs : ∀ a : Activation, a.method = m → a.pc ≤ n →
        Mirrors host (Run.outcome (exec lib fuel depth a)) (exec lib' fuel' depth { a with method := m' }) :=
      fun a is low => ih enough is low
    have caught := fun f => faultCaptured captured runs (by omega) is low f
    obtain before | last := Nat.lt_or_eq_of_le low
    · obtain ⟨o, here⟩ : ∃ o, a.method.ops[a.pc]? = some o := by
        rw [is, Array.getElem?_eq_getElem (by rw [captured.size]; omega)]
        exact ⟨_, rfl⟩
      have allowed := captured.confined a.pc o before (is ▸ here)
      have here' := captured.same a.pc o before (is ▸ here)
      have turned : Mirrors host (turn lib fuel depth o a) (turn lib' fuel' depth (o.relabel (· + 4)) { a with method := m' }) := by
        unfold turn
        rw [stepMoved captured.moved _ _ o is]
        exact stepMirrors beside (enterMirrors (execMirrors beside confined (by omega) (depth + 1))) confined allowed.weaken _ _ a
      refine turned.followed (fun x => Run.outcome (restRun (exec lib fuel depth) a x))
        (restRun (exec lib' fuel' depth) { a with method := m' }) Run.outcomeNever ?_
        (fun w => Run.outcomeCongr (execTurn here w)) (execTurn here')
      · intro w ends
        have stays : ∀ x, (turn lib fuel depth o a w).1 = .ok x → Stays a.method x := fun x => turnStays allowed w
        generalize (turn lib fuel depth o a w).1 = x at ends stays ⊢
        rcases x with (f | _) | x
        · exact caught f
        · exact absurd rfl ends
        · cases x with
          | next s ls => exact runs _ is before
          | jump pc s ls =>
            obtain ⟨l, rfl⟩ := stays _ rfl
            exact runs _ is (is ▸ captured.inside l)
          | done v => exact (stays _ rfl).elim
    · have here : a.method.ops[a.pc]? = some (.ret 1) := by rw [is, last, captured.last]
      have here' : m'.ops[a.pc]? = some (.native .outcomeSuccess) := by rw [last, captured.succeeds]
      obtain ⟨method, pc, stack, locals⟩ := a
      cases stack with
      | nil =>
        intro w foreign ends
        have empty : Run.outcome (exec lib (fuel + 1) depth ⟨method, pc, [], locals⟩) w =
            Run.outcome (restRun (exec lib fuel depth) ⟨method, pc, [], locals⟩ (.error (.fault underflow))) w :=
          Run.outcomeCongr (execTurn here w)
        rw [empty] at ends ⊢
        rw [execTurn here' w]
        exact caught underflow w foreign ends
      | cons v s =>
        obtain ⟨k, rfl⟩ : ∃ k, fuel' = k + 2 := ⟨fuel' - 2, by omega⟩
        intro w foreign _
        rw [Run.outcomeIs, execDone here rfl]
        cases show pc = n from last
        exact ⟨successRuns captured k depth v locals s w, foreign⟩

end Runs

end Machine

end QueryMachine
