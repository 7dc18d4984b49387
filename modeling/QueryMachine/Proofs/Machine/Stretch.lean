import QueryMachine.Proofs.Machine.Scene

/-! Stretches of a method of which regions protect parts. What a run comes to that stays in a stretch, in itself, in a
larger stretch around it, and in the whole method. -/
namespace QueryMachine

namespace Method

variable {m : Method} {hs hs' : List Handler} {pc : Nat} {f : Fault}

def handlerIn? (m : Method) (hs : List Handler) (pc : Nat) (f : Fault) : Option Nat :=
  (hs.find? fun h => m.position h.start ≤ pc && pc < m.position h.stop && f.caughtBy h.filter).map fun h =>
    m.position h.target

def Clear (m : Method) (hs : List Handler) (pc : Nat) : Prop :=
  ∀ h ∈ hs, ¬ (m.position h.start ≤ pc ∧ pc < m.position h.stop)

theorem handlerInAppend : m.handlerIn? (hs ++ hs') pc f = (m.handlerIn? hs pc f).or (m.handlerIn? hs' pc f) := by
  unfold handlerIn?
  rw [List.find?_append, Option.map_or]

theorem handlerInClear (clear : m.Clear hs pc) : m.handlerIn? hs pc f = none := by
  unfold handlerIn?
  rw [Option.map_eq_none_iff, List.find?_eq_none]
  intro h inside
  have apart := clear h inside
  simp only [Bool.and_eq_true, decide_eq_true_eq]
  exact fun covers => apart covers.1

theorem handlerInFilters {start stop target : Label} (filters : List Catch)
    (inside : m.position start ≤ pc ∧ pc < m.position stop) :
    m.handlerIn? (filters.map (Handler.mk start stop target)) pc f =
      if filters.any f.caughtBy then some (m.position target) else none := by
  unfold handlerIn?
  induction filters with
  | nil => rfl
  | cons k ks ih =>
    cases taken : f.caughtBy k with
    | true => simp [inside, taken]
    | false => simpa [inside, taken] using ih

end Method

namespace Machine

structure Stretch where
  first : Nat
  last : Nat
  handlers : List Handler

def Stretch.Inside (S : Stretch) (pc : Nat) : Prop := S.first ≤ pc ∧ pc < S.last

inductive Exit where
  | completed (s : Stack) (ls : List Value) (w : World)
  | faulted (f : Fault) (ls : List Value) (w : World)

def Exit.locals : Exit → List Value
  | completed _ ls _ => ls
  | faulted _ ls _ => ls

namespace Scene

variable (θ : Scene)

def Does (o : Op) (a : Moment) (r : Except Fault Next) (w : World) : Prop :=
  ∃ k, ∀ fuel, θ.turn (fuel + k) o a = (r.mapError .fault, w)

def onward (hs : List Handler) (a : Moment) (w : World) : Except Fault Next → Option Moment
  | .ok (.next s ls) => some ⟨a.pc + 1, s, ls, w⟩
  | .ok (.jump pc s ls) => some ⟨pc, s, ls, w⟩
  | .ok (.done _) => none
  | .error f => (θ.method.handlerIn? hs a.pc f).map fun q => ⟨q, [.throwable f], a.locals, w⟩

/-- What a run comes to that stays in a stretch until it leaves it. -/
inductive Comes (S : Stretch) : Moment → Exit → Prop
  | leaves {s : Stack} {ls : List Value} {w : World} : Comes S ⟨S.last, s, ls, w⟩ (.completed s ls w)
  | goes {a b : Moment} {o : Op} {r : Except Fault Next} {w : World} {x : Exit} :
    S.Inside a.pc → θ.method.ops[a.pc]? = some o → θ.Does o a r w → θ.onward S.handlers a w r = some b → Comes S b x → Comes S a x
  | raises {a : Moment} {o : Op} {f : Fault} {w : World} :
    S.Inside a.pc → θ.method.ops[a.pc]? = some o → θ.Does o a (.error f) w → θ.method.handlerIn? S.handlers a.pc f = none →
      Comes S a (.faulted f a.locals w)

variable {θ} {S T : Stretch} {a b : Moment} {o : Op} {r r' : Except Fault Next} {x y : Exit} {f : Fault} {p : Nat} {s s' : Stack}
  {ls ls' : List Value} {w w' : World}

theorem doesCore (is : core w.heap θ.method o s ls = some r) : θ.Does o ⟨p, s, ls, w⟩ r w := by
  refine ⟨0, fun fuel => ?_⟩
  rw [turnCore (a := ⟨p, s, ls, w⟩) is]
  cases r <;> rfl

theorem doesOne (one : θ.Does o a r w) (other : θ.Does o a r' w') : r = r' ∧ w = w' := by
  obtain ⟨k, first⟩ := one
  obtain ⟨n, second⟩ := other
  have both := (first n).symm.trans (Nat.add_comm n k ▸ second k)
  obtain ⟨same, rfl⟩ := Prod.mk.inj both
  refine ⟨?_, rfl⟩
  cases r with
  | ok n => cases r' with
    | ok n' => cases same; rfl
    | error f' => cases same
  | error f => cases r' with
    | ok n' => cases same
    | error f' => cases same; rfl

/-! ### Runs in a stretch -/

theorem Comes.one (first : θ.Comes S a x) (second : θ.Comes S a y) : x = y := by
  induction first with
  | leaves =>
    cases second with
    | leaves => rfl
    | goes inside => exact absurd inside.2 (Nat.lt_irrefl _)
    | raises inside => exact absurd inside.2 (Nat.lt_irrefl _)
  | goes inside here does onward _ ih =>
    cases second with
    | leaves => exact absurd inside.2 (Nat.lt_irrefl _)
    | goes _ here' does' onward' rest =>
      cases here.symm.trans here'
      obtain ⟨rfl, rfl⟩ := doesOne does does'
      cases onward.symm.trans onward'
      exact ih rest
    | raises _ here' does' free =>
      cases here.symm.trans here'
      obtain ⟨rfl, rfl⟩ := doesOne does does'
      rw [Scene.onward, free] at onward
      cases onward
  | raises inside here does free =>
    cases second with
    | leaves => exact absurd inside.2 (Nat.lt_irrefl _)
    | goes _ here' does' onward' rest =>
      cases here.symm.trans here'
      obtain ⟨rfl, rfl⟩ := doesOne does does'
      rw [Scene.onward, free] at onward'
      cases onward'
    | raises _ here' does' _ =>
      cases here.symm.trans here'
      obtain ⟨same, rfl⟩ := doesOne does does'
      cases same
      rfl

theorem comesNext (inside : S.Inside p) (here : θ.method.ops[p]? = some o)
    (is : core w.heap θ.method o s ls = some (.ok (.next s' ls'))) (rest : θ.Comes S ⟨p + 1, s', ls', w⟩ x) :
    θ.Comes S ⟨p, s, ls, w⟩ x := .goes inside here (doesCore is) rfl rest

theorem comesJump {q : Nat} (inside : S.Inside p) (here : θ.method.ops[p]? = some o)
    (is : core w.heap θ.method o s ls = some (.ok (.jump q s' ls'))) (rest : θ.Comes S ⟨q, s', ls', w⟩ x) :
    θ.Comes S ⟨p, s, ls, w⟩ x := .goes inside here (doesCore is) rfl rest

theorem comesFault (inside : S.Inside p) (here : θ.method.ops[p]? = some o)
    (is : core w.heap θ.method o s ls = some (.error f)) (free : θ.method.handlerIn? S.handlers p f = none) :
    θ.Comes S ⟨p, s, ls, w⟩ (.faulted f ls w) := .raises (a := ⟨p, s, ls, w⟩) inside here (doesCore is) free

theorem Comes.spares (comes : θ.Comes S a x) : x.locals.length = a.locals.length ∧
    ∀ i, (∀ pc o, S.Inside pc → θ.method.ops[pc]? = some o → i ∉ stores o) → x.locals[i]? = a.locals[i]? := by
  induction comes with
  | leaves => exact ⟨rfl, fun _ _ => rfl⟩
  | raises => exact ⟨rfl, fun _ _ => rfl⟩
  | @goes a b o r w x inside here does onward rest ih =>
    have lands : Spares o a.locals b.locals := by
      cases r with
      | error f =>
        obtain ⟨q, _, rfl⟩ := Option.map_eq_some_iff.1 onward
        exact sparesSame o a.locals
      | ok n =>
        obtain ⟨k, does⟩ := does
        have lands := turnLands (x := n) a.world (congrArg Prod.fst (does 0))
        cases n with
        | next s ls =>
          cases onward
          exact lands
        | jump pc s ls =>
          cases onward
          rw [lands.1]
          exact sparesSame o a.locals
        | done v => cases onward
    refine ⟨ih.1.trans lands.1, fun i spared => ?_⟩
    exact (ih.2 i spared).trans (lands.2 i (spared a.pc o inside here))

/-! ### Parts of a stretch -/

def Follow (θ : Scene) (S : Stretch) (last : Nat) (out : Fault → Option Nat) (x : Exit) : Exit → Prop
  | .completed s ls w => θ.Comes S ⟨last, s, ls, w⟩ x
  | .faulted f ls w => match out f with
    | some q => θ.Comes S ⟨q, [.throwable f], ls, w⟩ x
    | none => x = .faulted f ls w

theorem Comes.within (part : θ.Comes T a y) (out : Fault → Option Nat) (within : ∀ pc, T.Inside pc → S.Inside pc)
    (around : ∀ pc f, T.Inside pc → θ.method.handlerIn? S.handlers pc f = (θ.method.handlerIn? T.handlers pc f).or (out f))
    (follow : θ.Follow S T.last out x y) : θ.Comes S a x := by
  induction part with
  | leaves => exact follow
  | @goes a b o r w y inside here does onward _ ih =>
    refine .goes (within _ inside) here does ?_ (ih follow)
    cases r with
    | ok n => cases n <;> exact onward
    | error f =>
      obtain ⟨q, taken, rfl⟩ := Option.map_eq_some_iff.1 onward
      rw [Scene.onward, around _ _ inside, taken]
      rfl
  | @raises a o f w inside here does free =>
    have taken : θ.method.handlerIn? S.handlers a.pc f = out f := by rw [around _ _ inside, free, Option.none_or]
    cases is : out f with
    | none =>
      simp only [Follow, is] at follow
      rw [follow]
      exact .raises (within _ inside) here does (taken.trans is)
    | some q =>
      simp only [Follow, is] at follow
      rw [is] at taken
      refine .goes (within _ inside) here does ?_ follow
      rw [Scene.onward, taken]
      rfl

/-! ### Stretches of a method -/

/-- Runs from two moments are one, once there is fuel enough for what is called between them. -/
def Joins (θ : Scene) (a b : Moment) : Prop := ∃ k n, ∀ fuel, θ.rest a (fuel + k) = θ.rest b (fuel + n)

def Fails (θ : Scene) (a : Moment) (f : Fault) (w : World) : Prop := ∃ k, ∀ fuel, θ.rest a (fuel + k) = (.error (.fault f), w)

theorem Joins.refl (a : Moment) : θ.Joins a a := ⟨0, 0, fun _ => rfl⟩

theorem Joins.trans {c : Moment} (first : θ.Joins a b) (second : θ.Joins b c) : θ.Joins a c := by
  obtain ⟨k, n, comes⟩ := first
  obtain ⟨i, j, goes⟩ := second
  refine ⟨i + k, j + n, fun fuel => ?_⟩
  rw [← Nat.add_assoc, comes, Nat.add_right_comm, goes, ← Nat.add_assoc, Nat.add_right_comm]

theorem Joins.fails (first : θ.Joins a b) (second : θ.Fails b f w) : θ.Fails a f w := by
  obtain ⟨k, n, comes⟩ := first
  obtain ⟨i, ends⟩ := second
  refine ⟨i + k, fun fuel => ?_⟩
  rw [← Nat.add_assoc, comes, Nat.add_right_comm, ends]

/-- How a method goes on once a stretch of it is left. A fault goes to the first region after those of the stretch that
protects where it came up, or out of the method. -/
def Left (θ : Scene) (S : Stretch) (later : List Handler) (a : Moment) : Exit → Prop
  | .completed s ls w => θ.Joins a ⟨S.last, s, ls, w⟩
  | .faulted f ls w => ∃ pc, S.Inside pc ∧ match θ.method.handlerIn? later pc f with
    | some q => θ.Joins a ⟨q, [.throwable f], ls, w⟩
    | none => θ.Fails a f w

theorem Left.before {later : List Handler} (joins : θ.Joins a b) (left : θ.Left S later b x) : θ.Left S later a x := by
  cases x with
  | completed s ls w => exact Joins.trans joins left
  | faulted f ls w =>
    obtain ⟨pc, inside, ends⟩ := left
    refine ⟨pc, inside, ?_⟩
    cases is : θ.method.handlerIn? later pc f with
    | some q =>
      rw [is] at ends
      exact joins.trans ends
    | none =>
      rw [is] at ends
      exact joins.fails ends

theorem Comes.left {before later : List Handler} (comes : θ.Comes S a x)
    (handlers : θ.method.handlers = before ++ S.handlers ++ later) (clear : ∀ pc, S.Inside pc → θ.method.Clear before pc) :
    θ.Left S later a x := by
  have found : ∀ pc f, S.Inside pc → θ.method.handlerFor? pc f =
      (θ.method.handlerIn? S.handlers pc f).or (θ.method.handlerIn? later pc f) := by
    intro pc f inside
    change θ.method.handlerIn? θ.method.handlers pc f = _
    rw [handlers, Method.handlerInAppend, Method.handlerInAppend, Method.handlerInClear (clear pc inside), Option.none_or]
  induction comes with
  | leaves => exact Joins.refl _
  | @goes a b o r w x inside here does onward _ ih =>
    refine Left.before ?_ ih
    obtain ⟨k, does⟩ := does
    refine ⟨k + 1, k, fun fuel => ?_⟩
    cases r with
    | ok n => cases n with
      | next s ls =>
        cases onward
        exact execNext here (does fuel)
      | jump pc s ls =>
        cases onward
        exact execJump here (does fuel)
      | done v => cases onward
    | error f =>
      obtain ⟨q, taken, rfl⟩ := Option.map_eq_some_iff.1 onward
      have taken : θ.method.handlerFor? a.pc f = some q := by
        rw [found _ _ inside, taken]
        rfl
      exact execCaught here (does fuel) taken
  | @raises a o f w inside here does free =>
    obtain ⟨k, does⟩ := does
    have taken : θ.method.handlerFor? a.pc f = θ.method.handlerIn? later a.pc f := by
      rw [found _ _ inside, free, Option.none_or]
    refine ⟨a.pc, inside, ?_⟩
    cases is : θ.method.handlerIn? later a.pc f with
    | some q => exact ⟨k + 1, k, fun fuel => execCaught here (does fuel) (taken.trans is)⟩
    | none => exact ⟨k + 1, fun fuel => execFault here (does fuel) (taken.trans is)⟩

end Scene

end Machine

end QueryMachine
