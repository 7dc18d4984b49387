import QueryMachine.Proofs.Program.Compile

/-! Invocations: arguments stand in the slots of the parameters they are given for. -/
namespace QueryMachine

namespace Machine

theorem pushReverse (v : Value) (s : Stack) : (push v s).reverse = s.reverse ++ (push v []).reverse := by
  unfold push
  split <;> simp

theorem slotsCons (v : Value) (vs : List Value) : slotsOf (v :: vs) = (push v []).reverse ++ slotsOf vs := by
  have onto : ∀ (vs : List Value) (s : Stack), (vs.foldl (fun s v => push v s) s).reverse = s.reverse ++ slotsOf vs := by
    intro vs
    induction vs with
    | nil => simp [slotsOf]
    | cons v vs ih =>
      intro s
      rw [slotsOf, List.foldl_cons, List.foldl_cons, ih, ih, pushReverse v s, List.append_assoc]
  exact onto vs (push v [])

theorem slotsAt (before : List Value) {vs : List Value} {ts : List Ty}
    (sized : ∀ (i : Nat) v, vs[i]? = some v → ∃ t, ts[i]? = some t ∧ (push v []).length = max t.width 1)
    {i : Nat} {v : Value} (inside : vs[i]? = some v) {next slot : Nat} (laid : (Emit.layout next ts).1[i]? = some slot)
    {rest : List Value} (length : before.length = next) : (before ++ slotsOf vs ++ rest)[slot]? = some v := by
  induction vs generalizing ts i next before with
  | nil => contradiction
  | cons u vs ih =>
    obtain ⟨t, first, width⟩ := sized 0 u rfl
    cases ts with
    | nil => contradiction
    | cons t' ts =>
      cases first
      rw [slotsCons]
      cases i with
      | zero =>
        cases inside
        cases laid
        have head : (push v []).reverse[0]? = some v := by
          unfold push
          split <;> rfl
        rw [List.append_assoc, List.getElem?_append_right (by omega), length, Nat.sub_self, List.append_assoc,
          List.getElem?_append_left (by rw [List.length_reverse]; omega), head]
      | succ i =>
        rw [← List.append_assoc]
        refine ih _ (fun j w at_ => sized (j + 1) w at_) inside laid ?_
        rw [List.length_append, List.length_reverse, length, width]

end Machine

theorem Run.liftAll {α β : Type} {f : α → Except Fault β} {l : List α} {vs : List β} (all : l.mapM f = .ok vs) (w : World) :
    (l.mapM fun a => Run.lift (f a)) w = (.ok vs, w) := by
  induction l generalizing vs with
  | nil =>
    cases all
    rfl
  | cons a l ih =>
    rw [List.mapM_cons] at all
    obtain ⟨v, first, all⟩ := exceptBind all
    obtain ⟨rest, others, last⟩ := exceptBind all
    cases last
    rw [List.mapM_cons, first]
    change ((l.mapM fun a => Run.lift (f a)) >>= fun rest => pure (v :: rest) : Run (List β)) w = _
    simp only [bind, ExceptT.bind, ExceptT.mk, StateT.bind]
    rw [ih others]
    rfl

theorem EntryPoint.runAccepted {e : EntryPoint} {args values : List Value} {w : World} (arity : args.length = e.params.length)
    (coerced : (e.params.zip args).mapM (fun p => coerce w.heap p.1 p.2) = .ok values) (lib : Library) (fuel : Nat) :
    e.run lib fuel args w =
      Machine.exec lib fuel 1 (.start e.method (Machine.slotsOf (.timeout (e.deadline w.heap) :: values))) w := by
  have lifted := Run.liftAll coerced w
  unfold EntryPoint.run EntryPoint.runWith
  simp only [arity, ne_eq, not_true, if_false]
  change (((e.params.zip args).mapM fun p => Run.lift (coerce w.heap p.1 p.2)) >>= _ : Run Value) w = _
  simp only [bind, ExceptT.bind, ExceptT.mk, StateT.bind]
  rw [lifted]
  rfl

theorem Slots.bodyHolds {fs : Frames} {f : FrameId} {l : Local} {slot : Nat} (frame : l.frame = f)
    (holds : (Slots.body fs f).Holds l slot) :
    (Emit.layout 0 ((fs.frame f).locals.map (·.2))).1[l.index]? = some slot := by
  have found := holds.1
  unfold Slots.find? Slots.body Slots.enter at found
  simpa [frame] using found

theorem layoutRises {ts : List Ty} {next i j a b : Nat} (less : i < j) (first : (Emit.layout next ts).1[i]? = some a)
    (second : (Emit.layout next ts).1[j]? = some b) : a < b := by
  induction ts generalizing next i j with
  | nil => contradiction
  | cons t ts ih =>
    obtain ⟨j, rfl⟩ := Nat.exists_eq_add_one_of_ne_zero (Nat.ne_zero_of_lt less)
    cases i with
    | zero =>
      cases first
      have low : a + max t.width 1 ≤ b := layoutLow second
      omega
    | succ i => exact ih (Nat.lt_of_succ_lt_succ less) first second

theorem Slots.bodyRises {fs : Frames} {f : FrameId} {k l : Local} {a b : Nat} (frame : k.frame = f) (frame' : l.frame = f)
    (less : k.index < l.index) (first : (Slots.body fs f).Holds k a) (second : (Slots.body fs f).Holds l b) : a < b :=
  layoutRises less (bodyHolds frame first) (bodyHolds frame' second)

namespace Compiler

variable {e : Entry} {s : Session} {m : MethodDraft} {types : List Ty}

theorem Drafted.heldAt (drafted : Drafted e s m types) {fs : Frames} (grows : s.frames.Grows fs) {values : List Value}
    (sized : List.Forall₂ (fun type v => (Machine.push v []).length = max type.width 1) types values) {timeout : Timeout}
    {i : Nat} {l : Local} {v : Value} (param : m.locals[i + 1]? = some l) (arg : values[i]? = some v) {slot : Nat}
    (holds : (Slots.body fs m.frame).Holds l slot) (method : Method) :
    (Machine.Activation.start method (Machine.slotsOf (.timeout timeout :: values))).locals[slot]? = some v := by
  obtain ⟨index, frame, _⟩ := drafted.placed _ _ param
  have laid := Slots.bodyHolds frame holds
  rw [index] at laid
  have locals : ∀ (j : Nat) (p : Local), m.locals[j]? = some p → ((fs.frame m.frame).locals.map (·.2))[j]? = some p.type := by
    intro j p at_
    obtain ⟨index, frame, has⟩ := drafted.placed j p at_
    have here := (has.later grows).here
    rw [index, frame] at here
    rw [List.getElem?_map, here]
    rfl
  have typed : ∀ j : Nat, (m.locals.map (·.type))[j + 1]? = types[j]? := by
    intro j
    have whole := congrArg (List.map (·.2)) drafted.locals
    rw [List.map_map] at whole
    have whole : m.locals.map (·.type) = .timeout :: types := by
      refine whole.trans ?_
      rw [List.map_cons, List.map_snd_zip]
      exact Nat.le_of_eq (by rw [List.length_map, drafted.resolved.length_eq])
    rw [whole, List.getElem?_cons_succ]
  have arg : (.timeout timeout :: values)[i + 1]? = some v := arg
  refine Machine.slotsAt [] ?_ arg laid rfl
  intro j u at_
  cases j with
  | zero =>
    cases at_
    have first := congrArg (·[0]?) drafted.locals
    simp only [List.getElem?_map, List.getElem?_cons_zero] at first
    obtain ⟨p, there, is⟩ := Option.map_eq_some_iff.1 first
    refine ⟨p.type, locals 0 p there, ?_⟩
    rw [(Prod.mk.inj is).2]
    rfl
  | succ j =>
    rw [List.getElem?_cons_succ] at at_
    obtain ⟨low, is⟩ := List.getElem?_eq_some_iff.1 at_
    have low' : j < types.length := by rw [sized.length_eq]; exact low
    have there := typed j
    rw [List.getElem?_eq_getElem low', List.getElem?_map] at there
    obtain ⟨p, at_, type⟩ := Option.map_eq_some_iff.1 there
    refine ⟨p.type, locals _ p at_, ?_⟩
    rw [type, ← is]
    exact List.forall₂_iff_get.1 sized |>.2 j low' low

end Compiler

end QueryMachine
