import QueryMachine.Proofs.Program.Invocation
import QueryMachine.Proofs.Scalar.Slots

/-! Compiled formulas. An entry point of integers and booleans that is accepted can be built, and invoked on arguments of
its parameters it answers with the value of its formula. -/
namespace QueryMachine

open Machine (Thread push)
open Build (Ends)

/-- An argument that a parameter of a type takes, as a number or null. -/
inductive ValueType.Takes : ValueType → Value → Option Int → Prop
  | raw {p : Prim} {v : Value} {n : Int} : v.whole? = some (p, n) → Takes (.scalar p) v (some n)
  | present {p : Prim} {v : Value} {n : Int} : v.whole? = some (p, n) → Takes (.optional (.scalar p)) v (some n)
  | missing {p : Prim} : p.isWhole → Takes (.optional (.scalar p)) .null none

/-- Arguments for parameters, one for each, with the numbers that they are. -/
inductive Conforming : List (String × ValueType) → List Value → List (String × Option Int) → Prop
  | nil : Conforming [] [] []
  | cons {name : String} {t : ValueType} {v : Value} {x : Option Int} {params : List (String × ValueType)}
      {args : List Value} {xs : List (String × Option Int)} :
    t.Takes v x → Conforming params args xs → Conforming ((name, t) :: params) (v :: args) ((name, x) :: xs)

theorem Conforming.length {params : List (String × ValueType)} {args : List Value} {xs : List (String × Option Int)}
    (conforming : Conforming params args xs) : args.length = params.length := by
  induction conforming with
  | nil => rfl
  | cons _ _ ih => rw [List.length_cons, List.length_cons, ih]

def Scalar.answer (c : Scalar) (x : Option Int) : Value := value ⟨c.kind, .nullable⟩ x

def Scalar.outcome (c : Scalar) : Except Fault (Option Int) → Except Stop Value
  | .ok x => .ok (c.answer x)
  | .error f => .error (.fault f)

theorem ValueType.Resolves.scalarType {knows : String → Prop} {t : ValueType} {type : Ty} (resolves : t.Resolves knows type)
    {c : Scalar} (is : t.scalar? = some c) : type = c.type := by
  unfold scalar? at is
  split at is
  · split at is
    · cases is
      exact resolves.scalar _ rfl
    · contradiction
  · split at is
    · cases is
      exact resolves.optional _ rfl
    · contradiction
  · contradiction

def ValueType.slots : ValueType → Nat
  | .scalar p => (Ty.prim p).width
  | _ => 1

/-- A formula with a name and parameters. -/
structure Definition where
  name : String
  params : List (String × ValueType)
  formula : Formula

namespace Definition

def entry (d : Definition) : Entry := ⟨d.name, d.params, d.formula.node, false⟩

def scalar (d : Definition) : Scalar := d.formula.scalar d.params

def slots (d : Definition) : Nat := 1 + (d.params.map fun p => p.2.slots).sum

def eval (d : Definition) (xs : List (String × Option Int)) : Except Fault (Option Int) := d.formula.eval d.params xs

end Definition

namespace Machine.Thread

variable {θ : Thread} {ls : List Value} {X : Asm} {c : Scalar} {r : Except Fault (Option Int)} {w : World}

theorem returns (yields : θ.Yields ls X c r) {q : Nat}
    (spans : θ.method.Spans 0 (X ++ Asm.box c.type ++ [.op (.ret 1)]) q) (w : World) :
    ∃ n, ∀ fuel, n ≤ fuel → θ.rest ⟨0, [], ls, w⟩ fuel = (c.outcome r, w) := by
  obtain ⟨mid, body, last, _⟩ := Method.spansAppend.1 spans
  cases r with
  | error f =>
    obtain ⟨n, ends⟩ := runsError (yields.runs w []) (Asm.box c.type) 0 mid body
    refine ⟨n, fun fuel enough => ?_⟩
    rw [← Nat.sub_add_cancel enough]
    exact ends _
  | ok x =>
    obtain ⟨n, goes⟩ := runsAppend (yields.runs w []) (boxedRuns (yields.admits x rfl)) 0 mid body
    refine ⟨n + 1, fun fuel enough => ?_⟩
    obtain ⟨more, rfl⟩ : ∃ more, fuel = more + 1 + n := ⟨fuel - (n + 1), by omega⟩
    rw [goes]
    change θ.rest ⟨mid, [c.answer x], ls, w⟩ (more + 1) = _
    unfold rest
    rw [exec]
    simp only [last]
    rfl

end Machine.Thread

/-! ### Arguments -/

theorem wholeBoxed {v : Value} {p : Prim} {n : Int} (is : v.whole? = some (p, n)) (h : Heap) :
    EntryPoint.coerce h (.boxedOf p) v = .ok (.boxed (p.inBox n)) ∧
      EntryPoint.coerce h (.prim p) v = .ok (Number.openBox p (p.inBox n)) := by
  unfold Value.whole? at is
  split at is
  · cases is
    simp only [Prim.inBox, Int32.ofInt_toInt]
    exact ⟨rfl, rfl⟩
  · cases is
    simp only [Prim.inBox, Int64.ofInt_toInt]
    exact ⟨rfl, rfl⟩
  · next b =>
    cases is
    cases b <;> exact ⟨rfl, rfl⟩
  · cases is
    simp only [Prim.inBox, Int8.ofInt_toInt]
    exact ⟨rfl, rfl⟩
  · cases is
    simp only [Prim.inBox, Int16.ofInt_toInt]
    exact ⟨rfl, rfl⟩
  · cases is
    simp only [Prim.inBox, Int32.ofInt_toInt]
    exact ⟨rfl, rfl⟩
  · cases is
    simp only [Prim.inBox, Int64.ofInt_toInt]
    exact ⟨rfl, rfl⟩
  · contradiction

theorem ValueType.Takes.held {t : ValueType} {v : Value} {x : Option Int} {knows : String → Prop} {type : Ty} (takes : t.Takes v x)
    (resolves : t.Resolves knows type) : ∃ c, t.scalar? = some c ∧ type = c.type ∧ c.Admits x ∧
      ∀ h, EntryPoint.coerce h type v = .ok (c.value x) := by
  have found : ∃ c, t.scalar? = some c ∧ c.Admits x ∧ ∀ h, EntryPoint.coerce h c.type v = .ok (c.value x) := by
    cases takes with
    | @raw p _ _ is =>
      obtain ⟨holds, whole⟩ := Value.wholeHolds is
      refine ⟨⟨p, .raw⟩, if_pos whole, holds, fun h => ?_⟩
      exact (wholeBoxed is h).2.trans (congrArg Except.ok (Prim.openBox holds))
    | @present p _ _ is =>
      obtain ⟨holds, whole⟩ := Value.wholeHolds is
      exact ⟨⟨p, .nullable⟩, if_pos whole, holds, fun h => (wholeBoxed is h).1⟩
    | @missing p whole => exact ⟨⟨p, .nullable⟩, if_pos whole, rfl, fun h => rfl⟩
  obtain ⟨c, is, admits, coerced⟩ := found
  have typed := resolves.scalarType is
  exact ⟨c, is, typed, admits, typed ▸ coerced⟩

theorem Scalar.valueSlots {c : Scalar} {x : Option Int} (admits : c.Admits x) :
    (push (c.value x) []).length = max c.type.width 1 := by
  obtain ⟨p, form⟩ := c
  cases form with
  | raw =>
    cases x with
    | none => cases admits
    | some n => cases p <;> first | rfl | exact admits.elim
  | _ => cases x <;> rfl

section

variable {params : List (String × ValueType)} {types : List Ty} {knows : String → Prop} {name : String}

theorem resolvedLookup (resolved : List.Forall₂ (fun p type => p.2.Resolves knows type) params types)
    (whole : ∀ p ∈ params, p.2.scalar?.isSome) {locals : List Local} (typed : locals.map (·.type) = types) {l : Local}
    (found : ((params.map (·.1)).zip locals).lookup name = some l) :
    ∃ c, (params.lookup name).bind ValueType.scalar? = some c ∧ l.type = c.type := by
  induction resolved generalizing locals with
  | nil => contradiction
  | @cons p type params types resolves _ ih =>
    rw [List.forall_mem_cons] at whole
    obtain ⟨first, t⟩ := p
    cases locals with
    | nil => contradiction
    | cons k locals =>
      cases typed
      rw [List.map_cons, List.zip_cons_cons, List.lookup_cons] at found
      rw [List.lookup_cons]
      split at found
      · next same =>
        cases found
        rw [same]
        obtain ⟨c, is⟩ := Option.isSome_iff_exists.1 whole.1
        refine ⟨c, is, ?_⟩
        exact resolves.scalarType is
      · next other =>
        rw [other]
        exact ih whole.2 rfl found

theorem Conforming.held {args : List Value} {xs : List (String × Option Int)} (conforming : Conforming params args xs)
    (resolved : List.Forall₂ (fun p type => p.2.Resolves knows type) params types) : ∃ values,
      (∀ h, (types.zip args).mapM (fun p => EntryPoint.coerce h p.1 p.2) = .ok values) ∧
      List.Forall₂ (fun type v => (push v []).length = max type.width 1) types values ∧
      ∀ (locals : List Local) (name : String) (l : Local), ((params.map (·.1)).zip locals).lookup name = some l →
        ∃ (i : Nat) (c : Scalar) (x : Option Int), locals[i]? = some l ∧ (params.lookup name).bind ValueType.scalar? = some c ∧
          xs.lookup name = some x ∧ c.Admits x ∧ values[i]? = some (c.value x) := by
  induction conforming generalizing types with
  | nil =>
    cases resolved
    exact ⟨[], fun _ => rfl, .nil, nofun⟩
  | @cons first t v x params args xs takes _ ih =>
    cases resolved with
    | @cons _ type _ types resolves resolved =>
      obtain ⟨values, coerced, sized, found⟩ := ih resolved
      obtain ⟨c, is, rfl, admits, held⟩ := takes.held resolves
      refine ⟨c.value x :: values, ?_, .cons (Scalar.valueSlots admits) sized, ?_⟩
      · intro h
        rw [List.zip_cons_cons, List.mapM_cons, held h, coerced h]
        rfl
      · intro locals name l there
        cases locals with
        | nil => contradiction
        | cons k locals =>
          rw [List.map_cons, List.zip_cons_cons, List.lookup_cons] at there
          rw [List.lookup_cons, List.lookup_cons]
          split at there
          · next same =>
            cases there
            rw [same]
            exact ⟨0, c, x, rfl, is, rfl, admits, rfl⟩
          · next other =>
            rw [other]
            obtain ⟨i, c, x, inside, rest⟩ := found locals name l there
            exact ⟨i + 1, c, x, inside, rest⟩

end

/-! ### Compilation -/

namespace Definition

open Compiler (Drafted Meets)

/-- Parameters of integers and booleans, and a formula whose choices `joins` admits. -/
def Fits (joins : List Scalar → Prop) (d : Definition) : Prop :=
  (∀ p ∈ d.params, p.2.scalar?.isSome) ∧ d.formula.Fits d.params joins

def arguments (d : Definition) (m : MethodDraft) : List (String × Local) := (d.params.map (·.1)).zip m.locals.tail

structure Implemented (d : Definition) (s : Session) (m : MethodDraft) (types : List Ty) : Prop where
  drafted : Drafted d.entry s m types
  ready : m.Ready (fun _ => False) s.Knows s.frames (Returned (d.formula.Means d.params (d.arguments m)) d.scalar.type)

variable {d : Definition} {s s' : Session} {context : ContextId} {joins : List Scalar → Prop}

theorem Implemented.later {m : MethodDraft} {types : List Ty} (implemented : d.Implemented s m types) (later : s.Later s') :
    d.Implemented s' m types where
  drafted := implemented.drafted.later later
  ready := implemented.ready.mono (fun _ never => never) later.knows later.frames fun _ _ _ shape => shape

theorem typesSettle {params : List (String × ValueType)} (good : s.Good) (whole : ∀ p ∈ params, p.2.scalar?.isSome) :
    Settles (params.mapM fun (_, t) => Resolve.value context t) s fun types s' =>
      List.Forall₂ (fun p type => p.2.Resolves s'.Knows type) params types := by
  induction params generalizing s with
  | nil => exact settlesPure good .nil
  | cons p params ih =>
    rw [List.forall_mem_cons] at whole
    rw [List.mapM_cons]
    refine settlesBind (resolveSettles good whole.1) ?_
    intro t s₁ _ good first
    refine settlesBind (ih good whole.2) ?_
    intro ts s₂ later good rest
    exact settlesPure good (.cons (first.mono later.knows) rest)

theorem declaredOf {m : MethodDraft} {types : List Ty} {timeout : Local} {rest : List Local}
    (whole : ∀ p ∈ d.params, p.2.scalar?.isSome) (drafted : Drafted d.entry s m types) (locals : m.locals = timeout :: rest) :
    Formula.Declared d.params s ⟨context, m.frame, (d.params.map (·.1)).zip rest, timeout.read, []⟩ := by
  intro name l found
  have inside : l ∈ m.locals := by
    rw [locals]
    exact List.mem_cons_of_mem _ (List.of_mem_zip (Account.lookupMember found)).2
  obtain ⟨i, at_⟩ := List.getElem?_of_mem inside
  obtain ⟨_, frame, has⟩ := drafted.placed i l at_
  have typed : rest.map (·.type) = types := by
    have all := drafted.locals
    rw [locals, List.map_cons] at all
    have all := congrArg (List.map (·.2)) (List.cons.inj all).2
    rw [List.map_map, List.map_snd_zip] at all
    · exact all
    · exact Nat.le_of_eq (by rw [List.length_map, drafted.resolved.length_eq])
  obtain ⟨c, is, type⟩ := resolvedLookup drafted.resolved whole typed found
  exact ⟨frame, has, c, is, type⟩

theorem methodSettles (context : ContextId) (good : s.Good) (fits : d.Fits Scalar.Meet) :
    Settles (Compiler.method context d.entry) s fun r s' => d.Implemented s' r.1 r.2 := by
  obtain ⟨whole, fits⟩ := fits
  have lowered : Settles (Compiler.lower context d.entry) s fun l s' => Drafted d.entry s' l.draft l.types ∧
      l.value.type = d.scalar.type ∧ l.value.Writes (fun _ => False) s'.Knows (Visible l.draft.frame [] s'.frames)
        (d.formula.Means d.params (d.arguments l.draft)) := by
    unfold Compiler.lower
    refine settlesBind (P := fun _ _ => True) ?_ ?_
    · unfold Build.checkOpen
      refine settlesGet ?_
      rw [good.unbuilt]
      exact settlesPure good trivial
    intro _ s₁ _ good _
    refine settlesBind (typesSettle good whole) ?_
    intro types s₂ _ good resolved
    refine settlesBind ⟨Compiler.draftAdvances good resolved, rfl⟩ ?_
    intro m s₃ _ good ⟨drafted, _, _, listed⟩
    cases locals : m.locals with
    | nil => contradiction
    | cons timeout rest =>
      dsimp only
      refine settlesBind (Formula.lowers d.formula fits good (declaredOf whole drafted locals)) ?_
      intro value s₄ later good compiles
      refine settlesPure good ⟨drafted.later later, compiles.typed, ?_⟩
      have writes := compiles.writes
      unfold arguments
      rw [locals]
      exact writes
  unfold Compiler.method
  refine settlesBind lowered ?_
  intro l s' _ good ⟨drafted, typed, writes⟩
  refine settlesPure good ⟨{ drafted with }, ?_⟩
  have ready := drafted.ready writes false
  rw [typed] at ready
  exact ready

structure Tight (fs : Frames) (m : MethodDraft) : Prop where
  low : m.frame < fs.table.size
  body : ∃ body, m.body = some body ∧ Emit.Takes 0 body
  few : (((fs.frame m.frame).locals.map (·.2)).map fun t => max t.width 1).sum ≤ Emitter.slotLimit

theorem Tight.fits {fs : Frames} {m : MethodDraft} (tight : Tight fs m) : m.Fits fs := by
  obtain ⟨body, is, takes⟩ := tight.body
  exact MethodDraft.fitsFrame is takes rfl tight.few

structure Kept (fs fs' : Frames) : Prop where
  more : fs.table.size ≤ fs'.table.size
  same : ∀ f, f < fs.table.size → fs'.frame f = fs.frame f

theorem Tight.kept {fs fs' : Frames} {m : MethodDraft} (tight : Tight fs m) (kept : Kept fs fs') : Tight fs' m where
  low := Nat.lt_of_lt_of_le tight.low kept.more
  body := tight.body
  few := by
    rw [kept.same _ tight.low]
    exact tight.few

theorem Kept.refl (fs : Frames) : Kept fs fs := ⟨Nat.le_refl _, fun _ _ => rfl⟩

theorem Kept.trans {fs fs' fs'' : Frames} (first : Kept fs fs') (second : Kept fs' fs'') : Kept fs fs'' where
  more := Nat.le_trans first.more second.more
  same f low := (second.same f (Nat.lt_of_lt_of_le low first.more)).trans (first.same f low)

theorem typesSpare {params : List (String × ValueType)} (whole : ∀ p ∈ params, p.2.scalar?.isSome) :
    Build.Spares (fun _ => True) (params.mapM fun (_, t) => Resolve.value context t) := by
  induction params with
  | nil => exact Build.sparesPure trivial
  | cons p params ih =>
    rw [List.forall_mem_cons] at whole
    rw [List.mapM_cons]
    exact (Formula.scalarSpares whole.1).then fun _ _ => (ih whole.2).then fun _ _ => Build.sparesPure trivial

theorem methodKeeps (context : ContextId) (fits : d.Fits joins) (s : Session) :
    Ends (Compiler.method context d.entry) s (fun _ s' => Kept s.frames s'.frames) fun r s' => Kept s.frames s'.frames ∧
      r.1.frame < s'.frames.table.size ∧ (s'.frames.frame r.1.frame).locals.map (·.2) = r.1.locals.map (·.type) ∧
        ∃ body, r.1.body = some body ∧ Emit.Takes 0 body := by
  obtain ⟨whole, fits⟩ := fits
  have open_ : Build.Spares (fun _ => True) Build.checkOpen := by
    intro s
    unfold Build.checkOpen
    rw [Build.endsBind, Build.endsGet]
    cases s.built with
    | true => exact rfl
    | false => exact ⟨trivial, rfl⟩
  have lowered : Ends (Compiler.lower context d.entry) s (fun _ s' => Kept s.frames s'.frames) fun l s' =>
      Kept s.frames s'.frames ∧ l.draft.frame < s'.frames.table.size ∧
        (s'.frames.frame l.draft.frame).locals.map (·.2) = l.draft.locals.map (·.type) ∧ Build.Light l.value := by
    unfold Compiler.lower
    rw [Build.endsBind]
    refine (open_ s).mono ?_ fun _ s₁ same => same ▸ .refl _
    rintro _ s₁ ⟨_, same₁⟩
    rw [Build.endsBind, ← same₁]
    refine (typesSpare whole s₁).mono ?_ fun _ s₂ same => same ▸ .refl _
    rintro types s₂ ⟨_, same₂⟩
    rw [Build.endsBind, ← same₂]
    have drafted : ∀ ps, Ends (Build.newMethod Compiler.unitName d.entry.name none ps .any) s₂ (fun _ _ => False) fun m s₃ =>
        MethodDraft.Created s₂.frames none ps m s₃.frames ∧ m.receiver = none :=
      fun ps => ⟨MethodDraft.created s₂.frames Compiler.unitName d.entry.name none ps .any, rfl⟩
    refine (drafted _).mono ?_ fun _ _ never => never.elim
    rintro m s₃ ⟨created, static⟩
    have kept : Kept s₂.frames s₃.frames := ⟨by rw [created.size]; exact Nat.le_succ _, created.older⟩
    have low : m.frame < s₃.frames.table.size := by
      rw [created.frame, created.size]
      exact Nat.lt_succ_self _
    have held : (s₃.frames.frame m.frame).locals.map (·.2) = m.locals.map (·.type) := by
      rw [created.whole, ← created.locals, List.map_map]
      rfl
    cases m.locals with
    | nil => exact kept
    | cons timeout locals =>
      dsimp only at held ⊢
      rw [Build.endsBind]
      refine (Formula.nodeSpares d.formula fits _ s₃).mono ?_ fun _ s₄ same => same ▸ kept
      rintro value s₄ ⟨light, same₄⟩
      rw [← same₄] at kept low held
      exact ⟨kept, low, held, light⟩
  unfold Compiler.method
  rw [Build.endsBind]
  refine lowered.mono ?_ fun _ _ kept => kept
  rintro l s' ⟨kept, low, locals, light⟩
  exact ⟨kept, low, locals, _, rfl, Emit.takesReturn light _⟩

theorem paramSlots {knows : String → Prop} {params : List (String × ValueType)} {types : List Ty}
    (resolved : List.Forall₂ (fun p type => p.2.Resolves knows type) params types) (whole : ∀ p ∈ params, p.2.scalar?.isSome) :
    (types.map fun t => max t.width 1).sum = (params.map fun p => p.2.slots).sum := by
  induction resolved with
  | nil => rfl
  | @cons p type params types first _ ih =>
    rw [List.forall_mem_cons] at whole
    have same : max type.width 1 = p.2.slots := by
      have scalar := whole.1
      unfold ValueType.scalar? at scalar
      split at scalar
      · next q is =>
        rw [is, first.scalar q is]
        exact Nat.max_eq_left (Ty.widthPos nofun)
      · next q is =>
        rw [is, first.optional q is]
        rfl
      · contradiction
    rw [List.map_cons, List.map_cons, List.sum_cons, List.sum_cons, ih whole.2, same]

theorem methodTight (good : s.Good) (fits : d.Fits Scalar.Meet) (few : d.slots ≤ Emitter.slotLimit) {m : MethodDraft} {types : List Ty}
    (made : Compiler.method context d.entry s = (.ok (m, types), s')) : Tight s'.frames m := by
  obtain ⟨_, low, locals, body⟩ := (methodKeeps context fits s).ok made
  obtain ⟨implemented, _⟩ := Ends.ok (methodSettles context good fits).1 made
  refine ⟨low, body, ?_⟩
  have typed : m.locals.map (·.type) = .timeout :: types := by
    have all := congrArg (List.map Prod.snd) implemented.drafted.locals
    rw [List.map_map, List.map_cons, List.map_snd_zip] at all
    · exact all
    · exact Nat.le_of_eq (by rw [List.length_map, implemented.drafted.resolved.length_eq])
  rw [locals, typed, List.map_cons, List.sum_cons, paramSlots implemented.drafted.resolved fits.1]
  exact few

def Certain (s : Session) (_ : Signature) (m : MethodDraft) : Prop :=
  m.Ready (fun _ => False) s.Knows s.frames fun _ _ _ => True

theorem certainLasts : Compiler.Lasts Certain := fun _ _ _ _ later ready =>
  ready.mono (fun _ never => never) later.knows later.frames fun _ _ _ _ => trivial

theorem Implemented.meets {m : MethodDraft} {types : List Ty} (implemented : d.Implemented s m types) :
    Meets Certain s ⟨d.name, types, false⟩ m where
  cls := implemented.drafted.cls
  name := implemented.drafted.name
  typed := by rw [implemented.drafted.typed, implemented.drafted.returns]
  related := implemented.ready.mono (fun _ never => never) (fun _ known => known) (.refl _) fun _ _ _ _ => trivial

variable {c : Compiler}

theorem addTight (good : c.session.Good) (tight : ∀ m ∈ c.unit.methods, Tight c.session.frames m) (fits : d.Fits Scalar.Meet)
    (few : d.slots ≤ Emitter.slotLimit) :
    ∀ m ∈ (c.add d.entry).2.unit.methods, Tight (c.add d.entry).2.session.frames m := by
  have keeps := methodKeeps c.context fits c.session
  unfold Ends at keeps
  obtain ⟨err, s', is, which⟩ | ⟨m, types, s', unit, answer, added, _, is⟩ := c.addCases d.entry
  · rw [is]
    obtain rfl | rfl := which
    · exact tight
    · intro m inside
      refine (tight m inside).kept ?_
      rcases answer : Compiler.method c.context d.entry c.session with ⟨_ | _, s'⟩
      · rw [answer] at keeps
        exact keeps
      · rw [answer] at keeps
        exact keeps.1
  · rw [is, Compiler.addMethodIs added]
    rw [answer] at keeps
    intro n inside
    obtain old | new := List.mem_append.1 inside
    · exact (tight n old).kept keeps.1
    · rw [List.mem_singleton.1 new]
      exact methodTight good fits few answer

structure Collected (c : Compiler) : Prop where
  sound : c.Sound Certain
  units : c.session.units = []
  tight : ∀ m ∈ c.unit.methods, Tight c.session.frames m

theorem Collected.fits (collected : Collected c) : c.unit.Fits c.session.frames := fun m inside => (collected.tight m inside).fits

theorem addCollected (collected : Collected c) (fits : d.Fits Scalar.Meet) (few : d.slots ≤ Emitter.slotLimit) :
    Collected (c.add d.entry).2 ∧ c.session.Later (c.add d.entry).2.session := by
  obtain ⟨advances, units⟩ := methodSettles c.context collected.sound.session fits
  obtain ⟨sound, later⟩ := Compiler.addSound collected.sound certainLasts (advances.mono fun r s' _ _ made => made.meets)
  refine ⟨⟨sound, ?_, addTight collected.sound.session collected.tight fits few⟩, later⟩
  obtain ⟨err, s', is, which⟩ | ⟨m, types, s', unit, answer, _, _, is⟩ := c.addCases d.entry
  · rw [is]
    obtain rfl | rfl := which
    · exact collected.units
    · exact units.trans collected.units
  · rw [is]
    rw [answer] at units
    exact units.trans collected.units

theorem addAllCollected {ds : List Definition} (collected : Collected c) (fits : ∀ d ∈ ds, d.Fits Scalar.Meet)
    (few : ∀ d ∈ ds, d.slots ≤ Emitter.slotLimit) :
    Collected (c.addAll (ds.map entry)) ∧ c.session.Later (c.addAll (ds.map entry)).session := by
  refine Compiler.addAllKeeps (P := fun c' => Collected c' ∧ c.session.Later c'.session) ?_ ⟨collected, .refl _⟩
  intro c' e inside ⟨collected, before⟩
  obtain ⟨d, member, rfl⟩ := List.mem_map.1 inside
  obtain ⟨next, later⟩ := addCollected collected (fits d member) (few d member)
  exact ⟨next, before.trans later⟩

/-! ### Invocation -/

theorem Implemented.answers {m : MethodDraft} {types : List Ty} (implemented : d.Implemented s m types) {h : Heap}
    {verifying : Bool} {method : Method} (rendered : m.render s.frames h verifying = .ok method) {args : List Value}
    {xs : List (String × Option Int)} (conforming : Conforming d.params args xs) (lib : Library) (timeout : Option Nat)
    (w : World) :
    ∃ n, ∀ fuel, n ≤ fuel →
      EntryPoint.run lib fuel ⟨d.name, method, types, false, timeout⟩ args w = (d.scalar.outcome (d.eval xs), w) := by
  have ready := implemented.ready s.frames (.refl _) h verifying
  rw [rendered] at ready
  obtain ⟨_, ⟨X, means, rfl, unguarded⟩, lays, _, _⟩ := ready
  obtain ⟨values, coerced, sized, found⟩ := conforming.held implemented.drafted.resolved
  let deadline := EntryPoint.deadline ⟨d.name, method, types, false, timeout⟩ w.heap
  let θ : Thread := ⟨lib, method, 1, unguarded⟩
  let ls := (Machine.Activation.start method (Machine.slotsOf (.timeout deadline :: values))).locals
  have given : Formula.Given d.params xs (d.arguments m) (Slots.body s.frames m.frame) ls := by
    intro name l there
    obtain ⟨i, c, x, inside, is, number, admits, held⟩ := found m.locals.tail name l there
    refine ⟨c, x, is, number, admits, ?_⟩
    intro slot holds
    rw [List.getElem?_tail] at inside
    exact implemented.drafted.heldAt (.refl _) sized inside held holds method
  have trailer : m.trailer = [] := by
    unfold MethodDraft.trailer
    rw [implemented.drafted.returns]
    rfl
  rw [trailer, List.append_nil] at lays
  obtain ⟨n, ends⟩ := Thread.returns (means θ ls xs given) (Method.Lays.spans lays) w
  refine ⟨n, fun fuel enough => ?_⟩
  have arity : args.length = types.length := by
    rw [← implemented.drafted.resolved.length_eq]
    exact conforming.length
  rw [EntryPoint.runAccepted (e := ⟨d.name, method, types, false, timeout⟩) arity (coerced w.heap)]
  exact ends fuel enough

/-- Any program of definitions in which each choice is among operands that meet, with slots for the parameters of each: one
that is accepted can be built, and an invocation of it answers with the value of its formula. -/
theorem meetingDefinitionRuns (config : Config) (room : 0 < config.maxUnits) (heap : Heap) {before after : List Definition}
    (fits : ∀ x ∈ before ++ d :: after, x.Fits Scalar.Meet)
    (slots : ∀ x ∈ before ++ d :: after, x.slots ≤ Emitter.slotLimit)
    (accepted : (((Compiler.new config heap).addAll (before.map entry)).add d.entry).1 = .ok ()) :
    ∃ p w s, ((Compiler.new config heap).addAll ((before ++ d :: after).map entry)).build = (.ok (p, w), s) ∧
      ∀ args xs, Conforming d.params args xs → ∀ w, ∃ n, ∀ fuel, n ≤ fuel →
        p.run fuel d.name args w = (d.scalar.outcome (d.eval xs), w) := by
  have new : Collected (Compiler.new config heap) := ⟨Compiler.newSound config heap, rfl, List.forall_mem_nil _⟩
  have split := Compiler.addAllSplit (Compiler.new config heap) (before.map entry) (after.map entry) d.entry
  rw [List.map_append, List.map_cons, split]
  have fitsBefore : ∀ x ∈ before, x.Fits Scalar.Meet := fun x inside => fits x (List.mem_append_left _ inside)
  have fitsHere : d.Fits Scalar.Meet := fits d (by simp)
  have fitsAfter : ∀ x ∈ after, x.Fits Scalar.Meet := fun x inside => fits x (by simp [inside])
  obtain ⟨first, later₁⟩ := addAllCollected new fitsBefore fun x inside => slots x (List.mem_append_left _ inside)
  generalize (Compiler.new config heap).addAll (before.map entry) = c at first later₁ accepted
  obtain ⟨second, later₂⟩ := addCollected first fitsHere (slots d (by simp))
  obtain ⟨whole, later₃⟩ := addAllCollected second fitsAfter fun x inside => slots x (by simp [inside])
  have made : ∀ x ∈ d.entry :: after.map entry, ∀ s, s.Good →
      Advances (Compiler.method c.context x) s fun r s' => Meets Certain s' ⟨x.name, r.2, x.isStatement⟩ r.1 := by
    rw [← List.map_cons, List.forall_mem_map]
    intro x inside s good
    have fitting := fits x (List.mem_append_right _ inside)
    exact (methodSettles c.context good fitting).1.mono fun r s' _ _ implemented => implemented.meets
  obtain ⟨m, types, s', answer, later, pair⟩ := Compiler.acceptedStands first.sound certainLasts made accepted
  have pair : (⟨d.name, types, false⟩, m) ∈ ((c.add d.entry).2.addAll (after.map entry)).signatures.zip
      ((c.add d.entry).2.addAll (after.map entry)).unit.methods := pair
  have implemented : d.Implemented _ m types :=
    (Ends.ok (methodSettles c.context first.sound.session fitsHere).1 answer).1.later later
  have config : ((c.add d.entry).2.addAll (after.map entry)).session.config = config :=
    later₃.config.trans (later₂.config.trans later₁.config)
  generalize (c.add d.entry).2.addAll (after.map entry) = built at whole pair implemented config ⊢
  have ends := Compiler.buildEnds whole.sound (E := fun _ => False) (fun _ => False.elim) fun _ _ _ ready => ready
  rcases answer : built.build with ⟨err | ⟨p, w⟩, s⟩
  · rw [answer] at ends
    obtain never | ⟨_, crowded⟩ | ⟨full, _⟩ := ends
    · exact never.elim
    · exact absurd whole.fits (Compiler.crowdedAlone whole.units crowded)
    · unfold Session.Full at full
      rw [whole.units, config] at full
      exact absurd full (Nat.not_le_of_lt room)
  · rw [answer] at ends
    obtain ⟨_, builds⟩ := ends
    refine ⟨p, w, s, rfl, ?_⟩
    intro args xs conforming w
    obtain ⟨method, rendered, found⟩ := builds.entries _ _ pair
    obtain ⟨n, runs⟩ := implemented.answers rendered conforming p.library built.session.config.timeout? w
    refine ⟨n, fun fuel enough => ?_⟩
    unfold Program.run
    rw [found]
    exact runs fuel enough

end Definition

/-! ### Choices among operands of one kind -/

def Scalar.OneKind (cs : List Scalar) : Prop := ∀ a ∈ cs, ∀ b ∈ cs, a.kind = b.kind

theorem Scalar.OneKind.meet {cs : List Scalar} (one : OneKind cs) (whole : ∀ c ∈ cs, c.kind.isWhole) : Meet cs := by
  constructor
  · intro a insideA b insideB
    rw [one a insideA b insideB]
    have integral := whole b insideB
    rw [Prim.isWhole, Bool.or_eq_true, beq_iff_eq] at integral
    exact integral.imp (fun is => ⟨is, is⟩) fun is => ⟨is, is⟩
  · rintro c rest rfl a inside
    have folded : ∀ (rest : List Scalar) (d : Scalar), (∀ b ∈ rest, b.kind = d.kind) → (rest.foldl join d).kind = d.kind := by
      intro rest
      induction rest with
      | nil => exact fun d _ => rfl
      | cons e rest ih =>
        intro d same
        rw [List.forall_mem_cons] at same
        have joined : (d.join e).kind = d.kind := by
          unfold join
          rw [same.1, Prim.widerSame]
        rw [List.foldl_cons, ih (d.join e) fun b inside => (same.2 b inside).trans joined.symm, joined]
    right
    rw [folded rest c fun b inside => one b (List.mem_cons_of_mem _ inside) c List.mem_cons_self]
    exact one a inside c List.mem_cons_self

namespace Formula

mutual

theorem fitsWeaken {params : List (String × ValueType)} {joins joins' : List Scalar → Prop}
    (weaker : ∀ cs, (∀ c ∈ cs, c.kind.isWhole) → joins cs → joins' cs) (f : Formula) (fits : f.Fits params joins) :
    f.Fits params joins' := by
  match f with
  | literal _ _ | null _ _ | argument _ _ =>
    rw [Fits] at fits ⊢
    exact fits
  | arith _ left right _ =>
    rw [Fits] at fits ⊢
    exact ⟨fitsWeaken weaker left fits.1, fitsWeaken weaker right fits.2⟩
  | negate x _ | not x _ | isNull x _ =>
    rw [Fits] at fits ⊢
    exact fitsWeaken weaker x fits
  | and xs _ | or xs _ =>
    rw [Fits] at fits ⊢
    exact fitAllWeaken weaker xs fits
  | relation _ left right _ | compare left right _ =>
    rw [Fits] at fits ⊢
    exact ⟨fitsWeaken weaker left fits.1, fitsWeaken weaker right fits.2.1, fits.2.2⟩
  | cond test yes no _ =>
    rw [Fits] at fits ⊢
    refine ⟨fitsWeaken weaker test fits.1, fitsWeaken weaker yes fits.2.1, fitsWeaken weaker no fits.2.2.1, weaker _ ?_ fits.2.2.2⟩
    rw [List.forall_mem_cons, List.forall_mem_singleton]
    exact ⟨scalarWhole yes fits.2.1, scalarWhole no fits.2.2.1⟩
  | coalesce xs _ =>
    rw [Fits] at fits ⊢
    exact ⟨fitAllWeaken weaker xs fits.1, weaker _ (fun c inside => scalarsWhole xs fits.1 c (Scalar.upToSub inside)) fits.2⟩
termination_by sizeOf f

theorem fitAllWeaken {params : List (String × ValueType)} {joins joins' : List Scalar → Prop}
    (weaker : ∀ cs, (∀ c ∈ cs, c.kind.isWhole) → joins cs → joins' cs) (xs : List Formula) (fits : FitAll params joins xs) :
    FitAll params joins' xs := by
  cases xs with
  | nil =>
    rw [FitAll]
    trivial
  | cons x xs =>
    rw [FitAll] at fits ⊢
    exact ⟨fitsWeaken weaker x fits.1, fitAllWeaken weaker xs fits.2⟩
termination_by sizeOf xs

end

end Formula

namespace Definition

def one : Definition := ⟨"one", [], .literal (.int 1) .unknown⟩

/-- A definition that is accepted is not built where no units are allowed. -/
theorem acceptedWithoutRoom : one.Fits Scalar.OneKind ∧
    ((Compiler.new { Config.default with maxUnits := 0 } .empty).add one.entry).1 = .ok () ∧
    ∃ s, ((Compiler.new { Config.default with maxUnits := 0 } .empty).add one.entry).2.build =
      (.error (.of (.invalidArgument "too many generated units (limit 0)")), s) := by
  have refused : (match ((Compiler.new { Config.default with maxUnits := 0 } .empty).add one.entry).2.build with
      | (.error err, _) => some err
      | (.ok _, _) => none) = some (.of (.invalidArgument "too many generated units (limit 0)")) := by decide +kernel
  refine ⟨⟨nofun, ?_⟩, by decide +kernel, ?_⟩
  · unfold one
    rw [Formula.Fits]
    rfl
  · rcases answer : ((Compiler.new { Config.default with maxUnits := 0 } .empty).add one.entry).2.build with ⟨err | r, s⟩
    · rw [answer] at refused
      cases refused
      exact ⟨s, rfl⟩
    · rw [answer] at refused
      contradiction

/-- Where there is room for the unit of a program of definitions in which the operands of a choice are of one kind, and
there are slots for the parameters of each: a definition that is accepted can be built, and an invocation
of it on arguments of its parameters answers with the value of its formula and leaves the world as it is. -/
theorem acceptedDefinitionRuns (config : Config) (room : 0 < config.maxUnits) (heap : Heap) (before after : List Definition)
    (d : Definition) (fits : ∀ x ∈ before ++ d :: after, x.Fits Scalar.OneKind)
    (slots : ∀ x ∈ before ++ d :: after, x.slots ≤ Emitter.slotLimit)
    (accepted : (((Compiler.new config heap).addAll (before.map entry)).add d.entry).1 = .ok ()) :
    ∃ p w s, ((Compiler.new config heap).addAll ((before ++ d :: after).map entry)).build = (.ok (p, w), s) ∧
      ∀ args xs, Conforming d.params args xs → ∀ w, ∃ n, ∀ fuel, n ≤ fuel →
        p.run fuel d.name args w = (d.scalar.outcome (d.eval xs), w) := by
  refine meetingDefinitionRuns config room heap ?_ slots accepted
  intro x inside
  obtain ⟨whole, fits⟩ := fits x inside
  exact ⟨whole, Formula.fitsWeaken (fun _ whole one => one.meet whole) x.formula fits⟩

/-- The quotient of two numbers of which the second may be null, or one that is given in place of null. -/
def quotient : Definition where
  name := "quotient"
  params := [("a", .scalar .int8), ("b", .optional (.scalar .int64)), ("else", .scalar .int64)]
  formula := .coalesce [.arith .div (.argument "a" .unknown) (.argument "b" .unknown) .unknown, .argument "else" .unknown]
    .unknown

theorem quotientAnswers : quotient.Fits Scalar.OneKind ∧ ((Compiler.new .default .empty).add quotient.entry).1 = .ok () ∧
    ∃ p w s, ((Compiler.new .default .empty).addAll [quotient.entry]).build = (.ok (p, w), s) ∧ ∀ w, ∃ n, ∀ fuel, n ≤ fuel →
      p.run fuel "quotient" [.boxed (.byte 7), .boxed (.long (-2)), .long 9] w = (.ok (.boxed (.long (-3))), w) ∧
      p.run fuel "quotient" [.boxed (.byte 7), .null, .long 9] w = (.ok (.boxed (.long 9)), w) ∧
      p.run fuel "quotient" [.boxed (.byte 7), .boxed (.long 0), .long 9] w = (.error (.fault .divideByZero), w) := by
  have fits : quotient.Fits Scalar.OneKind := by
    refine ⟨by decide, ?_⟩
    unfold quotient Scalar.OneKind
    simp only [Formula.Fits, Formula.FitAll, and_true]
    decide
  have accepted : ((Compiler.new .default .empty).add quotient.entry).1 = .ok () := by decide +kernel
  refine ⟨fits, accepted, ?_⟩
  have slots : ∀ x ∈ [quotient], x.slots ≤ Emitter.slotLimit := by decide
  obtain ⟨p, w, s, built, answers⟩ := acceptedDefinitionRuns .default (by decide) .empty [] [] quotient
    (by simpa using fits) slots accepted
  refine ⟨p, w, s, built, fun w => ?_⟩
  have given : ∀ v (x : Option Int), ValueType.Takes (.optional (.scalar .int64)) v x →
      Conforming quotient.params [.boxed (.byte 7), v, .long 9] [("a", some 7), ("b", x), ("else", some 9)] :=
    fun v x takes => .cons (.raw rfl) (.cons takes (.cons (.raw rfl) .nil))
  obtain ⟨n₁, first⟩ := answers _ _ (given (.boxed (.long (-2))) (some (-2)) (.present rfl)) w
  obtain ⟨n₂, second⟩ := answers _ _ (given .null none (.missing rfl)) w
  obtain ⟨n₃, third⟩ := answers _ _ (given (.boxed (.long 0)) (some 0) (.present rfl)) w
  refine ⟨n₁ + n₂ + n₃, fun fuel enough => ⟨?_, ?_, ?_⟩⟩
  · exact first fuel (by omega)
  · exact second fuel (by omega)
  · exact third fuel (by omega)

end Definition

end QueryMachine
