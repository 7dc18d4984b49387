import QueryMachine.Program.Basic
import QueryMachine.Proofs.Program.Tree
import QueryMachine.Proofs.Unit.Load

/-! The methods of entry points. One returns the value of its tree as an object; a statement returns the outcome,
with a region around the value that catches every fault. -/
namespace QueryMachine

open Build
open Emit (Out)

def Returned (K : Slots → Asm → Prop) (t : Ty) (σ : Slots) (A : Asm) (hs : List Handler) : Prop :=
  ∃ X, K σ X ∧ A = X ++ Asm.box t ++ [.op (.ret 1)] ∧ hs = []

def Asm.outcome (stop caught done : Label) : Asm :=
  [.op (.native .outcomeSuccess), .mark stop, .op (.jump done), .mark caught, .op (.native .outcomeFailure),
    .mark done, .op (.ret 1)]

def Attempted (K : Slots → Asm → Prop) (t : Ty) (σ : Slots) (A : Asm) (hs : List Handler) : Prop :=
  ∃ X start stop caught done, K σ X ∧ A = [.mark start] ++ X ++ Asm.box t ++ Asm.outcome stop caught done ∧
    hs = [⟨start, stop, caught, .any⟩]

variable {E : Error → Prop} {knows : String → Prop} {Γ : Frames → Slots → Prop} {K : Slots → Asm → Prop} {x : Expr}

theorem valueFills (writes : x.Writes E knows Γ K) : (Seq.ret x .any).Fills E knows Γ 1 (Returned K x.type) := by
  intro fs e visible walk
  unfold Seq.ret Expr.generateAs
  rw [Emit.castAny, show Ty.any.width = 1 from rfl]
  simp only [Emit.outBind]
  refine walk.outPart writes.emits visible ?_
  intro e₁ X shape walk
  refine walk.outBox writes.regular.sized ?_
  intro e₂ walk
  refine Struct.outReturn walk ?_
  intro e₃ walk
  have none : e₃.handlers = [] := walk.handlers
  refine ⟨_, [], ⟨X, shape, rfl, rfl⟩, e₃, [], fun _ => False, e.slots, by simpa using walk, fun _ h => h, rfl,
    Nat.le_refl _, by simp, ?_⟩
  rw [← none]

theorem outcomeFills (writes : x.Writes E knows Γ K) :
    (Seq.ret (Build.outcome x) .any).Fills E knows Γ 1 (Attempted K x.type) := by
  intro fs e visible walk
  unfold Seq.ret Expr.generateAs Build.outcome
  rw [Emit.castAny, show Ty.any.width = 1 from rfl]
  simp only [Emit.outBind]
  refine walk.outLabel 0 ?_
  intro start e₁ _ walk
  refine walk.outLabel 1 ?_
  intro stop e₂ stopNew walk
  refine walk.outLabel 1 ?_
  intro caught e₃ caughtNew walk
  refine walk.outLabel 1 ?_
  intro done e₄ doneNew walk
  have apart : stop ≠ start ∧ caught ≠ start ∧ caught ≠ stop ∧ done ≠ start ∧ done ≠ stop ∧ done ≠ caught := by
    simp only [not_or] at stopNew caughtNew doneNew
    exact ⟨stopNew.1, caughtNew.2.1, caughtNew.1, doneNew.2.2.1, doneNew.2.1, doneNew.1⟩
  obtain ⟨stopStart, caughtStart, caughtStop, doneStart, doneStop, doneCaught⟩ := apart
  refine walk.outMark (l := start) (j := 0) (by simp) (by simp) (.inr rfl) ?_
  intro e₅ walk
  refine walk.outPart writes.emits visible ?_
  intro e₆ X shape walk
  refine walk.outBox writes.regular.sized ?_
  intro e₇ walk
  refine walk.outPlain ⟨rfl, rfl, rfl, rfl⟩ (Nat.le_refl 1) ?_
  intro e₈ walk
  refine walk.outMark (l := stop) (j := 1) (by simp [stopStart]) (by simp) (.inr rfl) ?_
  intro e₉ walk
  refine Walk.outJump (l := done) (k := 1) walk (by simp) ?_
  intro e₁₀ walk
  refine walk.outMark (l := caught) (j := 1) (by simp [caughtStart, caughtStop]) (by simp) (.inl rfl) ?_
  intro e₁₁ walk
  refine walk.outPlain ⟨rfl, rfl, rfl, rfl⟩ (Nat.le_refl 1) ?_
  intro e₁₂ walk
  refine walk.outMark (l := done) (j := 1) (by simp [doneStart, doneStop, doneCaught]) (by simp) (.inr rfl) ?_
  intro e₁₃ walk
  -- the region is not part of the walk, which goes on without it
  have noRegion : e₁₃.handlers = [] := walk.handlers
  have returning : Fits knows (some 1) e₁₃.maxLocals [(done, 1), (caught, 1), (stop, 1), (start, 0)] 1 (.ret 1) :=
    ⟨Nat.le_refl 1, by simp [Op.targets], by rintro _ _ ⟨⟩, fun n same => by cases same; exact ⟨rfl, rfl⟩, by rintro _ ⟨⟩⟩
  have ended : Walk knows (some 1) .empty { e₁₃ with ops := e₁₃.ops.push (.ret 1) } e.slots _ _ (fun _ => False) none :=
    (walk.op returning).forget (List.Subset.refl _) fun l => by grind
  refine ⟨_, [⟨start, stop, caught, .any⟩], ⟨X, start, stop, caught, done, shape, rfl, rfl⟩,
    { e₁₃ with ops := e₁₃.ops.push (.ret 1) }, _, fun _ => False, e.slots, by simpa [Asm.outcome] using ended,
    fun _ h => h, rfl, Nat.le_refl _, ?_, ?_⟩
  · intro h inside
    rw [List.mem_singleton.1 inside]
    exact ⟨by simp, by simp⟩
  · change Emitter.mk _ _ (e₁₃.handlers ++ _) _ _ _ _ = _
    rw [noRegion]
    rfl

theorem newMethodAdvances {s : Session} (good : s.Good) (name : String) {params : List (String × Ty)}
    (regular : ∀ p ∈ params, p.2.Regular s.Knows) :
    Advances (Build.newMethod Compiler.unitName name none params .any) s fun m s' =>
      MethodDraft.Created s.frames none params m s'.frames ∧ m.receiver = none ∧
        m.ref.cls = Compiler.unitName ∧ m.ref.name = name ∧ m.ref.returns = Ty.any.rep ∧ m.returns = .any := by
  have created := MethodDraft.created s.frames Compiler.unitName name none params .any
  unfold Build.newMethod
  refine advancesFrames (f := fun fs => MethodDraft.newStatic fs Compiler.unitName name params .any) good created.grows ?_
    ⟨created, rfl, rfl, rfl, rfl, rfl⟩
  intro l has
  obtain old | new := created.only l has
  · exact .inl old
  · right
    have param : (l.name, l.type) ∈ params := by
      rw [← created.locals]
      exact List.mem_map_of_mem new
    exact regular _ param

namespace Compiler

def lowerBy (lowering : Lowering) (context : ContextId) (e : Entry) : Build Compiler.Lowered := do
  Build.checkOpen
  let types ← e.params.mapM fun (_, t) => Resolve.value context t
  let params := ("$timeout", Ty.timeout) :: (e.params.map (·.1)).zip types
  let draft ← Build.newMethod unitName e.name none params .any
  match draft.locals with
  | [] => Build.fail (.internal "entry point without a timeout")
  | timeout :: locals =>
    let arguments := (e.params.map (·.1)).zip locals
    let value ← lowering ⟨context, draft.frame, arguments, timeout.read, []⟩
    return ⟨draft, types, value⟩

theorem lowerIs (context : ContextId) (e : Entry) : lower context e = lowerBy (Lowering.ofNode e.node) context e := rfl

theorem typesAdvances {s : Session} (good : s.Good) (context : ContextId) {params : List (String × ValueType)}
    (valued : ∀ p ∈ params, p.2.Valued) :
    Advances (params.mapM fun (_, t) => Resolve.value context t) s fun types s' =>
      List.Forall₂ (fun p type => p.2.Resolves s'.Knows type) params types := by
  induction params generalizing s with
  | nil => exact advancesPure good .nil
  | cons p params ih =>
    rw [List.forall_mem_cons] at valued
    rw [List.mapM_cons]
    refine advancesBind (Resolve.valueAdvances p.2 valued.1 good) ?_
    intro t s₁ _ good first
    refine advancesBind (ih good valued.2) ?_
    intro ts s₂ later good rest
    exact advancesPure good (.cons (first.mono later.knows) rest)

structure Drafted (e : Entry) (s : Session) (m : MethodDraft) (types : List Ty) : Prop where
  cls : m.ref.cls = unitName
  name : m.ref.name = e.name
  typed : m.ref.returns = Ty.any.rep
  returns : m.returns = .any
  low : m.frame < s.frames.table.size
  locals : m.locals.map (fun p => (p.name, p.type)) = ("$timeout", .timeout) :: (e.params.map (·.1)).zip types
  placed : ∀ i p, m.locals[i]? = some p → p.index = i ∧ p.frame = m.frame ∧ s.frames.Has p
  resolved : List.Forall₂ (fun p type => p.2.Resolves s.Knows type) e.params types

theorem Drafted.later {e : Entry} {s s' : Session} {m : MethodDraft} {types : List Ty} (drafted : Drafted e s m types)
    (later : s.Later s') : Drafted e s' m types :=
  { drafted with
    low := Nat.lt_of_lt_of_le drafted.low later.frames.more
    placed := fun i p at_ => by
      obtain ⟨index, frame, has⟩ := drafted.placed i p at_
      exact ⟨index, frame, has.later later.frames⟩
    resolved := drafted.resolved.imp fun _ _ resolves => resolves.mono later.knows }

structure Prepared (Z : MethodDraft → Account) (e : Entry) (s : Session) (l : Compiler.Lowered) : Prop where
  value : (Z l.draft).Lowered s [] l.value
  drafted : Drafted e s l.draft l.types

structure Hosts (Z : MethodDraft → Account) : Prop where
  root (m : MethodDraft) : (Z m).root = m.frame
  base (m : MethodDraft) : (Z m).base = m.locals.length
  params (m : MethodDraft) : ∀ l ∈ m.locals, (Z m).param l
  named {m : MethodDraft} {fs fs' fs'' : Frames} {ps : List (String × Ty)} :
    MethodDraft.Created fs none ps m fs' → fs'.Grows fs'' → ∀ name l, (Z m).named name →
      fs''.find? m.frame name = some l → (Z m).param l ∧ l.frame = m.frame ∧ fs''.Has l

theorem createdBase {fs fs' : Frames} {ps : List (String × Ty)} {m : MethodDraft}
    (created : MethodDraft.Created fs none ps m fs') (static : m.receiver = none) :
    m.locals.length ≤ (fs'.frame m.frame).locals.length := by
  cases length : m.locals.length with
  | zero => exact Nat.zero_le _
  | succ n =>
    have low : n < m.locals.length := by omega
    have at_ : (m.receiver.toList ++ m.locals)[n]? = some m.locals[n] := by simp [static]
    obtain ⟨frame, has⟩ := created.has _ (List.mem_of_getElem? at_)
    have index := created.indexed n _ at_
    have here := (List.getElem?_eq_some_iff.1 has.here).1
    rw [frame, index] at here
    exact here

theorem resolvedParams {s : Session} {e : Entry} {types : List Ty}
    (resolved : List.Forall₂ (fun p type => p.2.Resolves s.Knows type) e.params types) :
    ∀ p ∈ ("$timeout", Ty.timeout) :: (e.params.map (·.1)).zip types, p.2.Regular s.Knows := by
  rw [List.forall_mem_cons]
  refine ⟨.atom, ?_⟩
  intro p inside
  obtain ⟨q, _, resolves⟩ := Load.pairedLeft resolved (List.of_mem_zip inside).2
  exact resolves.regular

theorem draftAdvances {s : Session} {e : Entry} {types : List Ty} (good : s.Good)
    (resolved : List.Forall₂ (fun p type => p.2.Resolves s.Knows type) e.params types) :
    Advances (Build.newMethod unitName e.name none (("$timeout", .timeout) :: (e.params.map (·.1)).zip types) .any) s fun m s' =>
      Drafted e s' m types ∧ MethodDraft.Created s.frames none (("$timeout", .timeout) :: (e.params.map (·.1)).zip types) m s'.frames ∧
        m.receiver = none ∧ m.locals ≠ [] := by
  refine (newMethodAdvances good e.name (resolvedParams resolved)).mono ?_
  intro m s' later _ ⟨created, static, cls, name, typed, returns⟩
  have drafted : Drafted e s' m types := by
    refine ⟨cls, name, typed, returns, ?_, created.locals, ?_, resolved.imp fun _ _ resolves => resolves.mono later.knows⟩
    · rw [created.frame, created.size]
      exact Nat.lt_succ_self _
    · intro i p at_
      have at_ : (m.receiver.toList ++ m.locals)[i]? = some p := by simpa [static] using at_
      obtain ⟨frame, has⟩ := created.has p (List.mem_of_getElem? at_)
      exact ⟨created.indexed i p at_, frame, has⟩
  refine ⟨drafted, created, static, ?_⟩
  intro none
  have locals := created.locals
  rw [none] at locals
  contradiction

theorem lowerByAdvances {lowering : Lowering} {context : ContextId} {e : Entry} {s : Session}
    {P : MethodDraft → List Ty → Expr → Session → Prop} (good : s.Good) (valued : ∀ p ∈ e.params, p.2.Valued)
    (lowers : ∀ m types s' fs ps timeout rest, s'.Good → Drafted e s' m types → MethodDraft.Created fs none ps m s'.frames →
      m.receiver = none → m.locals = timeout :: rest →
        Advances (lowering ⟨context, m.frame, (e.params.map (·.1)).zip rest, timeout.read, []⟩) s' (P m types)) :
    Advances (lowerBy lowering context e) s fun l s' => Drafted e s' l.draft l.types ∧ P l.draft l.types l.value s' := by
  unfold lowerBy Advances
  rw [Build.endsBind, Build.endsOpen good.unbuilt]
  change Advances _ s _
  refine advancesBind (typesAdvances good context valued) ?_
  intro types s₁ _ good resolved
  refine advancesBind (draftAdvances good resolved) ?_
  intro m s₂ _ good ⟨drafted, created, static, listed⟩
  cases locals : m.locals with
  | nil => contradiction
  | cons timeout rest =>
    dsimp only
    refine advancesBind (lowers m types s₂ _ _ timeout rest good drafted created static locals) ?_
    intro value s₃ later₃ good lowered
    exact advancesPure good ⟨drafted.later later₃, lowered⟩

theorem lowerAdvances {Z : MethodDraft → Account} {lowering : Lowering} {context : ContextId} {e : Entry} {s : Session}
    (hosts : Hosts Z) (good : s.Good) (valued : ∀ p ∈ e.params, p.2.Valued)
    (lowers : ∀ m, (Z m).Lowers (fun _ => False) lowering) :
    Advances (lowerBy lowering context e) s (fun l s' => Prepared Z e s' l) := by
  refine (lowerByAdvances (P := fun m _ x s' => (Z m).Lowered s' [] x) good valued ?_).mono ?_
  · intro m types s₁ fs ps timeout rest good drafted created static locals
    refine lowers m s₁ [] _ good ?_ ?_
    · refine ⟨?_, ?_, nofun⟩
      · rw [hosts.root]
        exact drafted.low
      · rw [hosts.root, hosts.base]
        exact createdBase created static
    · refine ⟨(hosts.root m).symm, ?_, nofun, nofun, ?_⟩
      · intro x inside
        have member : x.2 ∈ m.locals := by
          rw [locals]
          exact List.mem_cons_of_mem _ (List.of_mem_zip inside).2
        obtain ⟨frame, has⟩ := created.has x.2 (List.mem_append_right _ member)
        exact ⟨hosts.params m x.2 member, frame.trans (hosts.root m).symm, has⟩
      · intro s' later name l named found
        rw [hosts.root] at found ⊢
        exact hosts.named created later.frames name l named found
  · intro l s' _ _ ⟨drafted, lowered⟩
    exact ⟨lowered, drafted⟩

end Compiler

end QueryMachine
