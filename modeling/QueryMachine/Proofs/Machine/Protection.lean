import QueryMachine.Proofs.Code.Writing
import QueryMachine.Proofs.Machine.Course
import QueryMachine.Proofs.Machine.Stretch

/-! Protected regions as they are laid out: what is tried, the clauses that take its faults, and what is done in the end
either way. A method runs them as the laws of the construct say. -/
namespace QueryMachine

theorem Method.Spans.label {m : Method} {p q : Nat} {X : Asm} (spans : m.Spans p X q) {l : Label} (inside : l ∈ X.labels) :
    p ≤ m.position l ∧ m.position l ≤ q := by
  induction X generalizing p with
  | nil => contradiction
  | cons item X ih =>
    cases item with
    | op o => exact (ih spans.2 inside).imp Nat.le_of_succ_le id
    | mark l' =>
      rcases List.mem_cons.1 inside with rfl | later
      · rw [spans.1, spans.2.size]
        exact ⟨Nat.le_refl p, Nat.le_add_right p _⟩
      · exact ih spans.2 later

theorem Method.Spans.here {m : Method} {p q i : Nat} {X : Asm} {o : Op} (spans : m.Spans p X q) (at_ : X.ops[i]? = some o) :
    m.ops[p + i]? = some o := by
  induction X generalizing p i with
  | nil => simp at at_
  | cons item X ih =>
    cases item with
    | mark l => exact ih spans.2 at_
    | op o' =>
      cases i with
      | zero =>
        cases at_
        exact spans.1
      | succ i =>
        have later := ih spans.2 at_
        rwa [Nat.add_assoc, Nat.add_comm 1] at later

structure Piece where
  code : Asm
  handlers : List Handler

namespace Piece

variable {c : Piece} {m : Method} {p q pc : Nat}

def Own (c : Piece) : Prop := ∀ h ∈ c.handlers, h.start ∈ c.code.labels ∧ h.stop ∈ c.code.labels

/-- The code as a stretch of a method in which it starts at `p`. -/
def stretch (c : Piece) (p : Nat) : Machine.Stretch := ⟨p, p + c.code.ops.length, c.handlers⟩

theorem Own.clear (own : c.Own) (spans : m.Spans p c.code q) (outside : pc < p ∨ q ≤ pc) : m.Clear c.handlers pc := by
  intro h inside covers
  obtain ⟨start, stop⟩ := own h inside
  rcases outside with before | behind
  · exact Nat.not_le_of_lt before (Nat.le_trans (spans.label start).1 covers.1)
  · exact Nat.not_le_of_lt covers.2 (Nat.le_trans (spans.label stop).2 behind)

end Piece

theorem Method.clearAppend {m : Method} {hs hs' : List Handler} {pc : Nat} (first : m.Clear hs pc) (second : m.Clear hs' pc) :
    m.Clear (hs ++ hs') pc := fun h inside => (List.mem_append.1 inside).elim (first h) (second h)

structure Handling where
  filters : List Catch
  entry : Label
  slot : Nat
  body : Piece

namespace Handling

def code (finish : Label) (c : Handling) : Asm :=
  [.mark c.entry, .op (.store c.slot)] ++ c.body.code ++ [.op (.jump finish)]

def handlers (start stop : Label) (c : Handling) : List Handler :=
  c.body.handlers ++ c.filters.map (Handler.mk start stop c.entry)

def takes (f : Fault) (c : Handling) : Bool := c.filters.any f.caughtBy

end Handling

structure Closing where
  entry : Label
  slot : Nat
  again : Piece
  after : Piece

structure Protection where
  start : Label
  stop : Label
  shut : Label
  finish : Label
  body : Piece
  clauses : List Handling
  always : Option Closing

namespace Protection

def pendingCode (P : Protection) : Asm := match P.always with
  | none => []
  | some A => [.mark A.entry, .op (.store A.slot)] ++ A.again.code ++ [.op (.load A.slot), .op .throw]

def afterCode (P : Protection) : Asm := match P.always with
  | none => []
  | some A => A.after.code

def code (P : Protection) : Asm :=
  [.mark P.start] ++ P.body.code ++ [.mark P.stop, .op (.jump P.finish)] ++ P.clauses.flatMap (·.code P.finish) ++
    [.mark P.shut] ++ P.pendingCode ++ [.mark P.finish] ++ P.afterCode

def closingHandlers (P : Protection) : List Handler := match P.always with
  | none => []
  | some A => A.again.handlers ++ [⟨P.start, P.shut, A.entry, .any⟩] ++ A.after.handlers

def handlers (P : Protection) : List Handler :=
  P.body.handlers ++ P.clauses.flatMap (·.handlers P.start P.stop) ++ P.closingHandlers

def handling? (P : Protection) (f : Fault) : Option Handling := P.clauses.find? (·.takes f)

structure Own (P : Protection) : Prop where
  body : P.body.Own
  clauses : ∀ c ∈ P.clauses, c.body.Own
  again : ∀ A, P.always = some A → A.again.Own
  after : ∀ A, P.always = some A → A.after.Own

def piece (P : Protection) : Piece := ⟨P.code, P.handlers⟩

theorem labelsMember {ι : Type} {g : ι → Asm} {items : List ι} {i : ι} {l : Label} (inside : i ∈ items)
    (bound : l ∈ (g i).labels) : l ∈ Asm.labels (items.flatMap g) := by
  obtain ⟨pre, post, rfl⟩ := List.append_of_mem inside
  simp [bound]

theorem Own.piece {P : Protection} (own : P.Own) : P.piece.Own := by
  have labels : ∀ l, l ∈ P.code.labels ↔ l = P.start ∨ l ∈ P.body.code.labels ∨ l = P.stop ∨
      l ∈ Asm.labels (P.clauses.flatMap (·.code P.finish)) ∨ l = P.shut ∨ l ∈ P.pendingCode.labels ∨ l = P.finish ∨
        l ∈ P.afterCode.labels := by
    intro l
    simp [code]
  intro h inside
  show h.start ∈ P.code.labels ∧ h.stop ∈ P.code.labels
  rw [labels, labels]
  rcases List.mem_append.1 inside with tried | closing
  · rcases List.mem_append.1 tried with body | clauses
    · obtain ⟨start, stop⟩ := own.body h body
      exact ⟨.inr (.inl start), .inr (.inl stop)⟩
    · obtain ⟨c, member, has⟩ := List.mem_flatMap.1 clauses
      rcases List.mem_append.1 has with body | filter
      · obtain ⟨start, stop⟩ := own.clauses c member h body
        have bound : ∀ l, l ∈ c.body.code.labels → l ∈ Asm.labels (P.clauses.flatMap (·.code P.finish)) :=
          fun l there => labelsMember member (by simp [Handling.code, there])
        exact ⟨.inr (.inr (.inr (.inl (bound _ start)))), .inr (.inr (.inr (.inl (bound _ stop))))⟩
      · obtain ⟨k, _, rfl⟩ := List.mem_map.1 filter
        exact ⟨.inl rfl, .inr (.inr (.inl rfl))⟩
  · unfold closingHandlers at closing
    cases is : P.always with
    | none =>
      rw [is] at closing
      contradiction
    | some A =>
      simp only [is, List.mem_append, List.mem_singleton] at closing
      rcases closing with (again | rfl) | after
      · obtain ⟨start, stop⟩ := own.again A is h again
        have bound : ∀ l, l ∈ A.again.code.labels → l ∈ P.pendingCode.labels := by
          intro l there
          simp [pendingCode, is, there]
        exact ⟨.inr (.inr (.inr (.inr (.inr (.inl (bound _ start)))))), .inr (.inr (.inr (.inr (.inr (.inl (bound _ stop))))))⟩
      · exact ⟨.inl rfl, .inr (.inr (.inr (.inr (.inl rfl))))⟩
      · obtain ⟨start, stop⟩ := own.after A is h after
        have bound : ∀ l, l ∈ A.after.code.labels → l ∈ P.afterCode.labels := by
          intro l there
          simp [afterCode, is, there]
        exact ⟨.inr (.inr (.inr (.inr (.inr (.inr (.inr (bound _ start))))))),
          .inr (.inr (.inr (.inr (.inr (.inr (.inr (bound _ stop)))))))⟩

def Spared (P : Protection) : Prop := ∀ A, P.always = some A → ∀ o ∈ A.again.code.ops, A.slot ∉ Machine.stores o

end Protection

namespace Machine

def Exit.straight (ls : List Value) (w : World) : Except Fault Stack → Exit
  | .ok s => .completed s ls w
  | .error f => .faulted f ls w

def Exit.pending (f : Fault) : Exit → Exit
  | completed _ ls w => .faulted f ls w
  | faulted g ls w => .faulted g ls w

namespace Scene

variable (θ : Scene) (P : Protection)

def Runs (c : Piece) (p : Nat) (s : Stack) (ls : List Value) (w : World) (x : Exit) : Prop :=
  θ.Comes (c.stretch p) ⟨p, s, ls, w⟩ x

def Handles : Exit → Exit → Prop
  | .completed s ls w, y => y = .completed s ls w
  | .faulted f ls w, y => match P.handling? f with
    | some c => θ.Runs c.body (θ.method.position c.entry + 1) [] (ls.set c.slot (.throwable f)) w y
    | none => y = .faulted f ls w

def Closes : Exit → Exit → Prop
  | .completed s ls w, x => match P.always with
    | some A => θ.Runs A.after (θ.method.position P.finish) s ls w x
    | none => x = .completed s ls w
  | .faulted f ls w, x => match P.always with
    | some A => ∃ y, θ.Runs A.again (θ.method.position A.entry + 1) [] (ls.set A.slot (.throwable f)) w y ∧ x = y.pending f
    | none => x = .faulted f ls w

/-- What is tried runs, then a clause if there was a fault that it takes, then what is done in the end. -/
def Attempts (s : Stack) (ls : List Value) (w : World) (x : Exit) : Prop :=
  ∃ y z, θ.Runs P.body (θ.method.position P.start) s ls w y ∧ θ.Handles P y z ∧ θ.Closes P z x

end Scene

end Machine

/-! ### Layout -/

namespace Handling

variable {c : Handling} {m : Method} {finish : Label} {p q : Nat}

structure Placed (c : Handling) (m : Method) (finish : Label) (p q : Nat) : Prop where
  entry : m.position c.entry = p
  store : m.ops[p]? = some (.store c.slot)
  body : m.Spans (p + 1) c.body.code q
  leave : m.ops[q]? = some (.jump finish)

theorem placed (spans : m.Spans p (c.code finish) q) : ∃ r, q = r + 1 ∧ c.Placed m finish p r := by
  unfold code at spans
  simp only [Method.spansAppend, Method.spansMark, Method.spansOp, Method.spansNil] at spans
  obtain ⟨r, ⟨_, ⟨entry, store, rfl⟩, body⟩, leave, rfl⟩ := spans
  exact ⟨r, rfl, entry, store, body, leave⟩

end Handling

namespace Protection

variable {P : Protection} {m : Method} {p q pc : Nat} {f : Fault} {cs : List Handling}

structure Placed (P : Protection) (m : Method) (p q : Nat) : Prop where
  start : m.position P.start = p
  body : m.Spans p P.body.code (m.position P.stop)
  leave : m.ops[m.position P.stop]? = some (.jump P.finish)
  clauses : m.Spans (m.position P.stop + 1) (P.clauses.flatMap (·.code P.finish)) (m.position P.shut)
  pending : m.Spans (m.position P.shut) P.pendingCode (m.position P.finish)
  after : m.Spans (m.position P.finish) P.afterCode q

theorem placed (spans : m.Spans p P.code q) : P.Placed m p q := by
  unfold code at spans
  simp only [Method.spansAppend, Method.spansMark, Method.spansOp, Method.spansNil] at spans
  obtain ⟨_, ⟨_, ⟨_, ⟨_, ⟨_, tried, clauses⟩, rfl, rfl⟩, pending⟩, rfl, rfl⟩, after⟩ := spans
  obtain ⟨_, ⟨_, ⟨start, rfl⟩, body⟩, rfl, leave, rfl⟩ := tried
  exact ⟨start, body, leave, clauses, pending, after⟩

theorem Placed.ordered (placed : P.Placed m p q) : p ≤ m.position P.stop ∧ m.position P.stop < m.position P.shut ∧
    m.position P.shut ≤ m.position P.finish ∧ m.position P.finish ≤ q := by
  have body := placed.body.size
  have clauses := placed.clauses.size
  have pending := placed.pending.size
  have after := placed.after.size
  omega

end Protection

namespace Closing

variable {A : Closing} {m : Method} {p q : Nat}

structure Placed (A : Closing) (m : Method) (p q : Nat) : Prop where
  entry : m.position A.entry = p
  store : m.ops[p]? = some (.store A.slot)
  again : m.Spans (p + 1) A.again.code q
  load : m.ops[q]? = some (.load A.slot)
  throw : m.ops[q + 1]? = some .throw

end Closing

namespace Protection

variable {P : Protection} {m : Method} {p q pc : Nat} {f : Fault} {cs : List Handling} {A : Closing}

theorem Placed.closing (placed : P.Placed m p q) (is : P.always = some A) :
    ∃ r, m.position P.finish = r + 2 ∧ A.Placed m (m.position P.shut) r := by
  have pending := placed.pending
  unfold pendingCode at pending
  rw [is] at pending
  simp only [Method.spansAppend, Method.spansMark, Method.spansOp, Method.spansNil] at pending
  obtain ⟨r, ⟨_, ⟨entry, store, rfl⟩, again⟩, load, throw, finish⟩ := pending
  exact ⟨r, finish.symm, entry, store, again, load, throw⟩

theorem Placed.afterwards (placed : P.Placed m p q) (is : P.always = some A) : m.Spans (m.position P.finish) A.after.code q := by
  have after := placed.after
  unfold afterCode at after
  rwa [is] at after

/-! ### Regions -/

theorem filtersClear {start stop entry : Label} (filters : List Catch) (untried : m.position stop ≤ pc) :
    m.Clear (filters.map (Handler.mk start stop entry)) pc := by
  intro h inside covers
  obtain ⟨k, _, rfl⟩ := List.mem_map.1 inside
  exact Nat.not_le_of_lt covers.2 untried

theorem clausesClear (own : ∀ c ∈ cs, c.body.Own) (spans : m.Spans p (cs.flatMap (·.code P.finish)) q)
    (outside : pc < p ∨ q ≤ pc) (untried : m.position P.stop ≤ pc) : m.Clear (cs.flatMap (·.handlers P.start P.stop)) pc := by
  induction cs generalizing p with
  | nil => nofun
  | cons c cs ih =>
    rw [List.forall_mem_cons] at own
    rw [List.flatMap_cons] at spans ⊢
    obtain ⟨_, first, rest⟩ := Method.spansAppend.1 spans
    obtain ⟨r, rfl, placed⟩ := Handling.placed first
    have size := placed.body.size
    have size' := rest.size
    have body : m.Clear c.body.handlers pc := own.1.clear placed.body (by omega)
    exact Method.clearAppend (Method.clearAppend body (filtersClear c.filters untried)) (ih own.2 rest (by omega))

theorem clausesTake (own : ∀ c ∈ cs, c.body.Own) (spans : m.Spans p (cs.flatMap (·.code P.finish)) q) (before : pc < p)
    (tried : m.position P.start ≤ pc ∧ pc < m.position P.stop) :
    m.handlerIn? (cs.flatMap (·.handlers P.start P.stop)) pc f = (cs.find? (·.takes f)).map fun c => m.position c.entry := by
  induction cs generalizing p with
  | nil => rfl
  | cons c cs ih =>
    rw [List.forall_mem_cons] at own
    rw [List.flatMap_cons] at spans ⊢
    obtain ⟨_, first, rest⟩ := Method.spansAppend.1 spans
    obtain ⟨r, rfl, placed⟩ := Handling.placed first
    have size := placed.body.size
    have clear := own.1.clear placed.body (.inl (Nat.lt_succ_of_lt before))
    rw [Method.handlerInAppend, ih own.2 rest (by omega), Handling.handlers, Method.handlerInAppend, Method.handlerInClear clear,
      Method.handlerInFilters _ tried, Option.none_or, List.find?_cons]
    unfold Handling.takes
    split
    · next taken => simp [taken]
    · next other => simp [other]

theorem clauseAt {c : Handling} (own : ∀ c ∈ cs, c.body.Own) (spans : m.Spans p (cs.flatMap (·.code P.finish)) q)
    (untried : m.position P.stop ≤ p) (inside : c ∈ cs) : ∃ r r', p ≤ r ∧ r' < q ∧ c.Placed m P.finish r r' ∧
      ∀ pc f, r < pc → pc < r' →
        m.handlerIn? (cs.flatMap (·.handlers P.start P.stop)) pc f = m.handlerIn? c.body.handlers pc f := by
  obtain ⟨l, l', rfl⟩ := List.append_of_mem inside
  rw [List.flatMap_append, List.flatMap_cons] at spans
  obtain ⟨r, before, rest⟩ := Method.spansAppend.1 spans
  obtain ⟨_, here, after⟩ := Method.spansAppend.1 rest
  obtain ⟨r', rfl, placed⟩ := Handling.placed here
  have size := before.size
  have size' := after.size
  refine ⟨r, r', by omega, by omega, placed, fun pc f low high => ?_⟩
  have behind : m.position P.stop ≤ pc := by omega
  have first : m.Clear (l.flatMap (·.handlers P.start P.stop)) pc :=
    clausesClear (fun c inside => own c (List.mem_append_left _ inside)) before (.inr (by omega)) behind
  have last : m.Clear (l'.flatMap (·.handlers P.start P.stop)) pc :=
    clausesClear (fun c inside => own c (List.mem_append_right _ (List.mem_cons_of_mem _ inside))) after (.inl (by omega)) behind
  rw [List.flatMap_append, List.flatMap_cons, Method.handlerInAppend, Method.handlerInClear first, Option.none_or,
    Method.handlerInAppend, Method.handlerInClear last, Option.or_none, Handling.handlers, Method.handlerInAppend,
    Method.handlerInClear (filtersClear c.filters behind), Option.or_none]

def escape (P : Protection) (m : Method) : Option Nat := P.always.map fun A => m.position A.entry

theorem closingTakes (own : P.Own) (placed : P.Placed m p q) (open_ : p ≤ pc ∧ pc < m.position P.shut) :
    m.handlerIn? P.closingHandlers pc f = P.escape m := by
  unfold closingHandlers escape
  cases is : P.always with
  | none => rfl
  | some A =>
    obtain ⟨r, _, closing⟩ := placed.closing is
    have clear : m.Clear A.again.handlers pc := (own.again A is).clear closing.again (by omega)
    have region : m.handlerIn? ([Catch.any].map (Handler.mk P.start P.shut A.entry)) pc f = some (m.position A.entry) :=
      Method.handlerInFilters [Catch.any] (placed.start.symm ▸ open_)
    change m.handlerIn? ((A.again.handlers ++ [Catch.any].map (Handler.mk P.start P.shut A.entry)) ++ A.after.handlers) pc f = _
    rw [Method.handlerInAppend, Method.handlerInAppend, Method.handlerInClear clear, Option.none_or, region, Option.some_or]
    rfl

section Everywhere

variable (own : P.Own) (placed : P.Placed m p q)
include own placed

theorem handlerInBody (tried : p ≤ pc ∧ pc < m.position P.stop) : m.handlerIn? P.handlers pc f =
    (m.handlerIn? P.body.handlers pc f).or (((P.handling? f).map fun c => m.position c.entry).or (P.escape m)) := by
  have ordered := placed.ordered
  have closing : m.handlerIn? P.closingHandlers pc f = P.escape m := closingTakes own placed (by omega)
  have clauses : m.handlerIn? (P.clauses.flatMap (·.handlers P.start P.stop)) pc f =
      (P.handling? f).map fun c => m.position c.entry :=
    clausesTake own.clauses placed.clauses (by omega) (placed.start.symm ▸ tried)
  rw [handlers, Method.handlerInAppend, Method.handlerInAppend, closing, clauses, Option.or_assoc]

theorem handlerInClause {c : Handling} (inside : c ∈ P.clauses) : ∃ r r', m.position P.stop < r ∧ r' < m.position P.shut ∧
    c.Placed m P.finish r r' ∧ ∀ pc f, r < pc → pc < r' →
      m.handlerIn? P.handlers pc f = (m.handlerIn? c.body.handlers pc f).or (P.escape m) := by
  obtain ⟨r, r', low, high, clause, only⟩ := clauseAt own.clauses placed.clauses (Nat.le_succ _) inside
  refine ⟨r, r', low, high, clause, fun pc f before after => ?_⟩
  have ordered := placed.ordered
  have closing : m.handlerIn? P.closingHandlers pc f = P.escape m := closingTakes own placed (by omega)
  have body : m.Clear P.body.handlers pc := own.body.clear placed.body (by omega)
  rw [handlers, Method.handlerInAppend, Method.handlerInAppend, closing, Method.handlerInClear body, Option.none_or,
    only pc f before after]

theorem handlerInClosing (shut : m.position P.shut ≤ pc) : m.handlerIn? P.handlers pc f = m.handlerIn? P.closingHandlers pc f := by
  have ordered := placed.ordered
  have body : m.Clear P.body.handlers pc := own.body.clear placed.body (by omega)
  have clauses : m.Clear (P.clauses.flatMap (·.handlers P.start P.stop)) pc :=
    clausesClear own.clauses placed.clauses (.inr shut) (by omega)
  rw [handlers, Method.handlerInAppend, Method.handlerInClear (Method.clearAppend body clauses), Option.none_or]

theorem closingSplits (is : P.always = some A) (shut : m.position P.shut ≤ pc) : m.handlerIn? P.handlers pc f =
    (m.handlerIn? A.again.handlers pc f).or (m.handlerIn? A.after.handlers pc f) := by
  rw [handlerInClosing own placed shut, closingHandlers, is]
  change m.handlerIn? ((A.again.handlers ++ [Catch.any].map (Handler.mk P.start P.shut A.entry)) ++ A.after.handlers) pc f = _
  rw [Method.handlerInAppend, Method.handlerInAppend, Method.handlerInClear (filtersClear _ shut), Option.or_none]

theorem handlerInAgain (is : P.always = some A) (open_ : m.position P.shut ≤ pc ∧ pc < m.position P.finish) :
    m.handlerIn? P.handlers pc f = m.handlerIn? A.again.handlers pc f := by
  have clear : m.Clear A.after.handlers pc := (own.after A is).clear (placed.afterwards is) (.inl open_.2)
  rw [closingSplits own placed is open_.1, Method.handlerInClear clear, Option.or_none]

theorem handlerInAfter (is : P.always = some A) (finished : m.position P.finish ≤ pc) :
    m.handlerIn? P.handlers pc f = m.handlerIn? A.after.handlers pc f := by
  obtain ⟨r, finish, closing⟩ := placed.closing is
  have ordered := placed.ordered
  have clear : m.Clear A.again.handlers pc := (own.again A is).clear closing.again (by omega)
  rw [closingSplits own placed is (by omega), Method.handlerInClear clear, Option.none_or]

end Everywhere

end Protection

/-! ### Runs -/

def Protection.stretch (P : Protection) (p q : Nat) : Machine.Stretch := ⟨p, q, P.handlers⟩

namespace Machine.Scene

variable {θ : Scene} {P : Protection} {p q last : Nat} {s : Stack} {ls : List Value} {w : World} {f : Fault} {x y z : Exit}

theorem comesStraight {S : Stretch} {os : List Op} {r : Except Fault Stack} (performs : Performs os s r)
    (inside : ∀ i, i < os.length → S.Inside (p + i)) (last : p + os.length = S.last) (free : S.handlers = [])
    (here : ∀ i o, os[i]? = some o → θ.method.ops[p + i]? = some o) : θ.Comes S ⟨p, s, ls, w⟩ (.straight ls w r) := by
  induction performs generalizing p with
  | done =>
    cases last
    exact .leaves
  | @next o os s t r takes _ ih =>
    refine comesNext (inside 0 (Nat.zero_lt_succ _)) (here 0 o rfl) (takes _ _ _) (ih ?_ ?_ ?_)
    · intro i low
      rw [Nat.add_assoc, Nat.add_comm 1]
      exact inside (i + 1) (Nat.succ_lt_succ low)
    · rw [← last, List.length_cons, Nat.add_assoc, Nat.add_comm 1]
    · intro i o' at_
      rw [Nat.add_assoc, Nat.add_comm 1]
      exact here (i + 1) o' at_
  | @fault o os s f takes =>
    refine comesFault (inside 0 (Nat.zero_lt_succ _)) (here 0 o rfl) (takes _ _ _) ?_
    rw [free]
    rfl

theorem runsStraight {c : Piece} {r : Except Fault Stack} (performs : Performs c.code.ops s r) (free : c.handlers = [])
    (spans : θ.method.Spans p c.code q) : θ.Runs c p s ls w (.straight ls w r) :=
  comesStraight performs (fun _ low => ⟨Nat.le_add_right p _, Nat.add_lt_add_left low p⟩) rfl free fun _ _ => spans.here

def Room (P : Protection) (ls : List Value) : Prop := ∀ A, P.always = some A → A.slot < ls.length

section Parts

variable (own : P.Own) (placed : P.Placed θ.method p q)
include own placed

theorem finishes (closes : θ.Closes P (.completed s ls w) x) :
    θ.Comes (P.stretch p q) ⟨θ.method.position P.finish, s, ls, w⟩ x := by
  have ordered := placed.ordered
  cases is : P.always with
  | none =>
    simp only [Closes, is] at closes
    have done := placed.after
    rw [Protection.afterCode, is] at done
    rw [closes, show θ.method.position P.finish = q from done]
    exact .leaves
  | some A =>
    simp only [Closes, is] at closes
    have size := (placed.afterwards is).size
    have behind : p ≤ θ.method.position P.finish := by omega
    refine closes.within (fun _ => none) ?_ ?_ ?_
    · exact fun pc here => ⟨Nat.le_trans behind here.1, size ▸ here.2⟩
    · intro pc f inside
      rw [Option.or_none]
      exact Protection.handlerInAfter own placed is inside.1
    · cases x with
      | completed s ls w =>
        show θ.Comes (P.stretch p q) ⟨θ.method.position P.finish + A.after.code.ops.length, s, ls, w⟩ _
        rw [← size]
        exact .leaves
      | faulted g ls w => rfl

theorem escapes (spared : P.Spared) (room : Room P ls) (closes : θ.Closes P (.faulted f ls w) x) :
    θ.Follow (P.stretch p q) last (fun _ => P.escape θ.method) x (.faulted f ls w) := by
  have ordered := placed.ordered
  cases is : P.always with
  | none =>
    simp only [Closes, is] at closes
    simpa only [Follow, Protection.escape, is, Option.map_none] using closes
  | some A =>
    simp only [Closes, is] at closes
    obtain ⟨y, runs, rfl⟩ := closes
    obtain ⟨r, finish, closing⟩ := placed.closing is
    have size := closing.again.size
    have inside : ∀ pc, θ.method.position P.shut ≤ pc → pc < r + 2 → (P.stretch p q).Inside pc :=
      fun pc low high => ⟨show p ≤ pc by omega, show pc < q by omega⟩
    simp only [Follow, Protection.escape, is, Option.map_some]
    rw [closing.entry] at runs ⊢
    have within : ∀ pc, (A.again.stretch (θ.method.position P.shut + 1)).Inside pc →
        θ.method.position P.shut ≤ pc ∧ pc < r :=
      fun pc here => ⟨Nat.le_of_succ_le here.1, size ▸ here.2⟩
    refine comesNext (inside _ (Nat.le_refl _) (by omega)) closing.store rfl ?_
    refine runs.within (fun _ => none) ?_ ?_ ?_
    · intro pc here
      exact inside pc (within pc here).1 (Nat.lt_trans (within pc here).2 (by omega))
    · intro pc g here
      rw [Option.or_none]
      exact Protection.handlerInAgain own placed is ⟨(within pc here).1, Nat.lt_trans (within pc here).2 (by omega)⟩
    · cases y with
      | faulted g ls' w' => rfl
      | completed s' ls' w' =>
        have held : ls'[A.slot]? = some (.throwable f) := by
          have kept := runs.spares.2 A.slot fun pc o here at_ =>
            spared A is o (closing.again.only (by exact here.1) (within pc here).2 at_)
          rwa [List.getElem?_set_self (room A is)] at kept
        have free : θ.method.handlerIn? P.handlers (r + 1) f = none := by
          rw [Protection.handlerInAgain own placed is ⟨by omega, by omega⟩]
          exact Method.handlerInClear ((own.again A is).clear closing.again (.inr (Nat.le_succ r)))
        show θ.Comes _ ⟨θ.method.position P.shut + 1 + A.again.code.ops.length, s', ls', w'⟩ _
        rw [← size]
        have loads : core w'.heap θ.method (.load A.slot) s' ls' = some (.ok (.next (.throwable f :: s') ls')) := by
          simp [core, held]
        refine comesNext (inside _ (by omega) (by omega)) closing.load loads ?_
        exact comesFault (inside _ (by omega) (by omega)) closing.throw rfl free

theorem goesOn (spared : P.Spared) (room : Room P z.locals) (closes : θ.Closes P z x) (inside : (P.stretch p q).Inside last)
    (leave : θ.method.ops[last]? = some (.jump P.finish)) :
    θ.Follow (P.stretch p q) last (fun _ => P.escape θ.method) x z := by
  cases z with
  | completed s ls w => exact comesJump inside leave rfl (finishes own placed closes)
  | faulted f ls w => exact escapes own placed spared room closes

theorem clauseGoes {c : Handling} (spared : P.Spared) (room : Room P ls) (inside : c ∈ P.clauses)
    (runs : θ.Runs c.body (θ.method.position c.entry + 1) [] (ls.set c.slot (.throwable f)) w z) (closes : θ.Closes P z x) :
    θ.Comes (P.stretch p q) ⟨θ.method.position c.entry, [.throwable f], ls, w⟩ x := by
  have ordered := placed.ordered
  obtain ⟨r, r', low, high, clause, around⟩ := Protection.handlerInClause own placed inside
  have size := clause.body.size
  have inside : ∀ pc, r ≤ pc → pc ≤ r' → (P.stretch p q).Inside pc :=
    fun pc low high => ⟨show p ≤ pc by omega, show pc < q by omega⟩
  rw [clause.entry] at runs ⊢
  refine comesNext (inside _ (by omega) (by omega)) clause.store rfl ?_
  have room' : Room P z.locals := by
    intro A is
    rw [runs.spares.1]
    simpa using room A is
  refine runs.within (fun _ => P.escape θ.method) ?_ ?_ ?_
  · rintro pc ⟨low, high⟩
    exact inside pc (Nat.le_of_succ_le low) (Nat.le_of_lt (size ▸ high))
  · rintro pc f ⟨low, high⟩
    exact around pc f low (size ▸ high)
  · show θ.Follow _ (r + 1 + c.body.code.ops.length) _ _ _
    rw [← size]
    exact goesOn own placed spared room' closes (inside _ (by omega) (by omega)) clause.leave

end Parts

theorem attempts (own : P.Own) (spans : θ.method.Spans p P.code q) (spared : P.Spared) (room : Room P ls)
    (runs : θ.Attempts P s ls w x) : θ.Comes (P.stretch p q) ⟨p, s, ls, w⟩ x := by
  have placed := Protection.placed spans
  have ordered := placed.ordered
  obtain ⟨y, z, body, handles, closes⟩ := runs
  rw [placed.start] at body
  have size := placed.body.size
  have room' : Room P y.locals := by
    intro A is
    rw [body.spares.1]
    exact room A is
  refine body.within (fun f => ((P.handling? f).map fun c => θ.method.position c.entry).or (P.escape θ.method)) ?_ ?_ ?_
  · rintro pc ⟨low, high⟩
    exact ⟨low, Nat.lt_of_lt_of_le (size ▸ high) (show θ.method.position P.stop ≤ q by omega)⟩
  · rintro pc f ⟨low, high⟩
    exact Protection.handlerInBody own placed ⟨low, size ▸ high⟩
  · show θ.Follow _ (p + P.body.code.ops.length) _ _ _
    rw [← size]
    cases y with
    | completed s ls w =>
      cases handles
      exact goesOn own placed spared room' closes ⟨ordered.1, show _ < q by omega⟩ placed.leave
    | faulted f ls w =>
      cases taken : P.handling? f with
      | none =>
        simp only [Handles, taken] at handles
        subst handles
        have escaped : θ.Follow (P.stretch p q) (θ.method.position P.stop) (fun _ => P.escape θ.method) x (.faulted f ls w) :=
          escapes own placed spared room' closes
        simpa only [Follow, taken, Option.map_none, Option.none_or] using escaped
      | some c =>
        simp only [Handles, taken] at handles
        simp only [Follow, taken, Option.map_some, Option.some_or]
        exact clauseGoes own placed spared room' (List.mem_of_find?_eq_some taken) handles closes

end Machine.Scene

end QueryMachine
