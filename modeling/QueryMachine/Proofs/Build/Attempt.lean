import QueryMachine.Build.Catch
import QueryMachine.Proofs.Build.Contained

/-! Protected regions as they are built. Whatever sequences they are made of, as long as these add code of their own, what
is emitted is laid out as a protected region, and adds code of its own again. -/
namespace QueryMachine

open Emit (Out)
open Build (Ends)

namespace Attempt

variable {fs : Frames} {e₀ e : Emitter} {σ τ : Slots} {A : Asm} {hs : List Handler} {W : Label → Prop}
  {start stop finish : Label} {Q : Unit → Emitter → Prop}

def inside (fs : Frames) (f : FrameId) (σ : Slots) : Slots := σ.enter f ((fs.frame f).locals.map (·.2))

def WroteClause (fs : Frames) (σ : Slots) (c : Clause) (h : Handling) : Prop :=
  h.filters = c.filters ∧ σ.find? c.fault = some h.slot ∧ c.body.Wrote fs σ h.body

/-- What was written for a protected region. -/
structure Wrote (fs : Frames) (σ : Slots) (a : Attempt) (P : Protection) : Prop where
  body : ∃ b, a.body = some b ∧ b.Wrote fs σ P.body
  clauses : List.Forall₂ (WroteClause fs σ) a.clauses P.clauses
  always : Option.Rel (fun b A => b.Wrote fs σ A.again ∧ b.Wrote fs σ A.after) a.always P.always

theorem outClause {c : Clause} (grown : e₀.Grown e τ A hs W) (contained : c.body.Contained fs σ)
    (active : τ.active = σ.active) (later : σ.next ≤ τ.next) (room : e₀.nextSlot ≤ e₀.maxLocals)
    (next : ∀ e' τ' h, WroteClause fs σ c h → τ'.active = σ.active → σ.next ≤ τ'.next →
      e₀.Grown e' τ' (A ++ h.code finish) (hs ++ h.handlers start stop) W → Q () e') :
    Out (generateClause start stop finish c) fs e (fun _ => True) Q := by
  unfold generateClause Emit.jump
  simp only [Emit.outBind]
  refine grown.outLabel ?_
  intro entry e₁ fresh grown
  refine grown.outMark (.inl rfl) ?_
  intro e₂ grown
  refine grown.outLocal active ?_
  intro slot found
  refine grown.outOp ?_
  intro e₃ grown
  refine grown.outSeq contained active later room ?_
  intro e₄ τ' piece wrote active later grown
  refine grown.outOp ?_
  intro e₅ grown
  refine grown.outRegions c.filters ?_
  intro e₆ grown
  refine next e₆ τ' ⟨c.filters, entry, slot, piece⟩ ⟨rfl, found, wrote⟩ active later ?_
  have waits : ∀ l, W l → (l = entry ∨ W l) ∧ l ≠ entry := fun l waits => ⟨.inr waits, fun same => fresh (same ▸ waits)⟩
  simpa [Handling.code, Handling.handlers] using grown.fewer waits

theorem outClauses {cs : List Clause} (grown : e₀.Grown e τ A hs W) (contained : ∀ c ∈ cs, c.body.Contained fs σ)
    (active : τ.active = σ.active) (later : σ.next ≤ τ.next) (room : e₀.nextSlot ≤ e₀.maxLocals)
    (next : ∀ e' τ' made, List.Forall₂ (WroteClause fs σ) cs made → τ'.active = σ.active → σ.next ≤ τ'.next →
      e₀.Grown e' τ' (A ++ made.flatMap (·.code finish)) (hs ++ made.flatMap (·.handlers start stop)) W → Q () e') :
    Out (cs.forM (generateClause start stop finish)) fs e (fun _ => True) Q := by
  induction cs generalizing e τ A hs Q with
  | nil => exact next e τ [] .nil active later (by simpa using grown)
  | cons c cs ih =>
    rw [List.forall_mem_cons] at contained
    rw [Emit.forMCons, Emit.outBind]
    refine outClause grown contained.1 active later room ?_
    intro e₁ τ₁ h wrote active later grown
    refine ih grown contained.2 active later ?_
    intro e₂ τ₂ made all active later grown
    exact next e₂ τ₂ (h :: made) (.cons wrote all) active later (by simpa using grown)

theorem outPending {b : Seq} {rethrow : Local} (grown : e₀.Grown e τ A hs W) (contained : b.Contained fs σ)
    (active : τ.active = σ.active) (later : σ.next ≤ τ.next) (room : e₀.nextSlot ≤ e₀.maxLocals)
    (next : ∀ e' τ' entry slot c, σ.find? rethrow = some slot → b.Wrote fs σ c → τ'.active = σ.active → σ.next ≤ τ'.next →
      e₀.Grown e' τ' (A ++ [.mark entry, .op (.store slot)] ++ c.code ++ [.op (.load slot), .op .throw])
        (hs ++ c.handlers ++ [⟨start, stop, entry, .any⟩]) W → Q () e') :
    Out (do
      let entry ← Emit.newLabel
      let slot ← Emit.slotOf rethrow
      Emit.mark entry
      Emit.op (.store slot)
      b
      Emit.ops [.load slot, .throw]
      Emit.region start stop entry .any) fs e (fun _ => True) Q := by
  simp only [Emit.outBind]
  refine grown.outLabel ?_
  intro entry e₁ fresh grown
  refine grown.outLocal active ?_
  intro slot found
  refine grown.outMark (.inl rfl) ?_
  intro e₂ grown
  refine grown.outOp ?_
  intro e₃ grown
  refine grown.outSeq contained active later room ?_
  intro e₄ τ' c wrote active later grown
  refine grown.outOps ?_
  intro e₅ grown
  refine grown.outRegion ?_
  intro e₆ grown
  refine next e₆ τ' entry slot c found wrote active later ?_
  have waits : ∀ l, W l → (l = entry ∨ W l) ∧ l ≠ entry := fun l waits => ⟨.inr waits, fun same => fresh (same ▸ waits)⟩
  simpa using grown.fewer waits

theorem outTried {f : FrameId} {b : Seq} {cs : List Clause} {rest : Label → Label → Label → Emit Unit}
    (room : e.nextSlot ≤ e.maxLocals) (body : b.Contained fs (inside fs f e.slots))
    (clauses : ∀ c ∈ cs, c.body.Contained fs (inside fs f e.slots))
    (next : ∀ start stop shut finish e' τ c made, b.Wrote fs (inside fs f e.slots) c →
      List.Forall₂ (WroteClause fs (inside fs f e.slots)) cs made →
      τ.active = (inside fs f e.slots).active →
      (inside fs f e.slots).next ≤ τ.next →
      e.Grown e' τ ([.mark start] ++ c.code ++ [.mark stop, .op (.jump finish)] ++ made.flatMap (·.code finish) ++ [.mark shut])
        (c.handlers ++ made.flatMap (·.handlers start stop)) (fun l => l = finish) →
      Out (rest start shut finish) fs e' (fun _ => True) Q) :
    Out (do
      Emit.enterFrame f
      let start ← Emit.newLabel
      let stop ← Emit.newLabel
      let shut ← Emit.newLabel
      let finish ← Emit.newLabel
      Emit.mark start
      b
      Emit.mark stop
      Emit.jump finish
      cs.forM (generateClause start stop finish)
      Emit.mark shut
      rest start shut finish) fs e (fun _ => True) Q := by
  unfold Emit.jump
  simp only [Emit.outBind]
  refine (Emitter.Grown.start e).outEnter ?_
  intro e₁ grown
  refine grown.outLabel ?_
  intro start e₂ _ grown
  refine grown.outLabel ?_
  intro stop e₃ stopNew grown
  refine grown.outLabel ?_
  intro shut e₄ shutNew grown
  refine grown.outLabel ?_
  intro finish e₅ finishNew grown
  simp only [or_false, not_or] at stopNew shutNew finishNew
  refine grown.outMark (by simp) ?_
  intro e₆ grown
  refine grown.outSeq body rfl (Nat.le_refl _) room ?_
  intro e₇ τ₁ c wrote active later grown
  refine grown.outMark (l := stop) ⟨by simp, stopNew⟩ ?_
  intro e₈ grown
  refine grown.outOp ?_
  intro e₉ grown
  refine outClauses grown clauses active later room ?_
  intro e₁₀ τ₂ made all active later grown
  refine grown.outMark (l := shut) ⟨⟨by simp, shutNew.2⟩, shutNew.1⟩ ?_
  intro e₁₁ grown
  have waits : ∀ l, l = finish →
      ((((l = finish ∨ l = shut ∨ l = stop ∨ l = start ∨ False) ∧ l ≠ start) ∧ l ≠ stop) ∧ l ≠ shut) := by
    rintro l rfl
    exact ⟨⟨⟨.inl rfl, finishNew.2.2⟩, finishNew.2.1⟩, finishNew.1⟩
  refine next start stop shut finish e₁₁ τ₂ c made wrote all active later ?_
  simpa using grown.fewer waits

theorem endsRethrow {f : FrameId} {b : Seq} {s : Session} {E : Error → Session → Prop}
    {Q : Option (Seq × Local) → Session → Prop}
    (next : Q (some (b, (s.frames.temp f "rethrow" .throwable).1))
      { s with frames := (s.frames.temp f "rethrow" .throwable).2 }) :
    Ends ((some b).mapM fun b => return (b, ← Build.temp f "rethrow" .throwable)) s E Q := by
  rw [Option.mapM_some]
  exact next

theorem buildEmits {a : Attempt} {s : Session} (low : a.frame < s.frames.table.size) :
    Ends a.build s (fun _ _ => True) fun x s' => ∀ fs, (s'.frames.frame a.frame).locals <+: (fs.frame a.frame).locals →
      ∀ e, e.nextSlot ≤ e.maxLocals → (∀ b, a.body = some b → b.Contained fs (inside fs a.frame e.slots)) →
        (∀ c ∈ a.clauses, c.body.Contained fs (inside fs a.frame e.slots)) →
        (∀ b, a.always = some b → b.Contained fs (inside fs a.frame e.slots)) →
        Out x fs e (fun _ => True) fun _ e' => ∃ P, a.Wrote fs (inside fs a.frame e.slots) P ∧
          e.Grown e' e.slots P.code P.handlers (fun _ => False) ∧ ∀ A, P.always = some A → A.slot < e'.maxLocals := by
  unfold build
  cases hasBody : a.body with
  | none => trivial
  | some b =>
    dsimp only
    split
    · trivial
    · rw [Build.endsBind]
      cases closes : a.always with
      | none =>
        intro fs _ e room body clauses _
        refine outTried room (body b rfl) clauses ?_
        intro start stop shut finish e₁ τ c made wrote all active later grown
        simp only [Option.forM, Emit.outBind, Emit.outPure]
        refine grown.outMark rfl ?_
        intro e₂ grown
        refine grown.outExit active (Nat.le_trans (layoutGrows _ _) later) ?_
        intro e₃ _ grown
        refine ⟨⟨start, stop, shut, finish, c, made, none⟩, ⟨⟨b, hasBody, wrote⟩, all, ?_⟩, ?_, fun _ is => by cases is⟩
        · rw [closes]
          exact .none
        · simpa [Protection.code, Protection.pendingCode, Protection.afterCode, Protection.handlers, Protection.closingHandlers]
            using grown.fewer fun _ never => never.elim
      | some block =>
        refine endsRethrow ?_
        rintro fs ⟨more, kept⟩ e room body clauses always
        obtain ⟨frame, type, _⟩ := s.frames.tempIs a.frame "rethrow" .throwable
        have has := Frames.tempHas low "rethrow" .throwable
        generalize (s.frames.temp a.frame "rethrow" .throwable).1 = rethrow at *
        have here : ((fs.frame a.frame).locals.map (·.2))[rethrow.index]? = some rethrow.type := by
          have there := has.here
          rw [frame] at there
          rw [← kept, List.getElem?_map, List.getElem?_append_left (List.getElem?_eq_some_iff.1 there).1, there]
          rfl
        obtain ⟨slot, ⟨found, high⟩, _⟩ := Slots.enterOwn (σ := e.slots) here
        rw [frame] at found high
        refine outTried room (body b rfl) clauses ?_
        intro start stop shut finish e₁ τ c made wrote all active later grown
        rw [Emit.outBind]
        refine outPending grown (always block rfl) active later room ?_
        intro e₂ τ entry slot' again found' wroteAgain active later grown
        cases found'.symm.trans found
        simp only [Emit.outBind]
        refine grown.outMark rfl ?_
        intro e₃ grown
        refine grown.outSeq (always block rfl) active later room ?_
        intro e₄ τ after wroteAfter active later grown
        have top : slot < e₄.maxLocals := by
          have fits := grown.room room
          have behind : (inside fs a.frame e.slots).next ≤ τ.next := later
          unfold inside at behind
          omega
        refine grown.outExit active (Nat.le_trans (layoutGrows _ _) later) ?_
        intro e₅ locals grown
        refine ⟨⟨start, stop, shut, finish, c, made, some ⟨entry, slot, again, after⟩⟩, ⟨⟨b, hasBody, wrote⟩, all, ?_⟩, ?_, ?_⟩
        · rw [closes]
          exact .some ⟨wroteAgain, wroteAfter⟩
        · simpa [Protection.code, Protection.pendingCode, Protection.afterCode, Protection.handlers, Protection.closingHandlers]
            using grown.fewer fun _ never => never.elim
        · intro A is
          cases is
          exact Nat.lt_of_lt_of_le top locals

/-! ### Protected regions in a method -/

variable {a : Attempt} {P : Protection} {s s' : Session} {x : Seq} {e' : Emitter}

theorem clausesOwn {cs : List Clause} {made : List Handling} (wrote : List.Forall₂ (WroteClause fs σ) cs made) :
    ∀ h ∈ made, h.body.Own := by
  induction wrote with
  | nil => nofun
  | cons first _ ih => exact List.forall_mem_cons.2 ⟨first.2.2.own, ih⟩

theorem closingOwn {o : Option Seq} {made : Option Closing}
    (wrote : Option.Rel (fun b A => b.Wrote fs σ A.again ∧ b.Wrote fs σ A.after) o made) {A : Closing} (is : made = some A) :
    A.again.Own ∧ A.after.Own := by
  subst is
  cases wrote with
  | some both => exact ⟨both.1.own, both.2.own⟩

theorem Wrote.own (wrote : a.Wrote fs σ P) : P.Own := by
  obtain ⟨b, _, body⟩ := wrote.body
  exact ⟨body.own, clausesOwn wrote.clauses, fun A is => (closingOwn wrote.always is).1,
    fun A is => (closingOwn wrote.always is).2⟩

theorem clausesTake {cs : List Clause} {made : List Handling} (wrote : List.Forall₂ (WroteClause fs σ) cs made) (f : Fault) :
    Option.Rel (WroteClause fs σ) (cs.find? (·.filters.any f.caughtBy)) (made.find? (·.takes f)) := by
  induction wrote with
  | nil => exact .none
  | cons first _ ih =>
    rw [List.find?_cons, List.find?_cons, Handling.takes, first.1]
    split
    · exact .some first
    · exact ih

theorem Wrote.handling (wrote : a.Wrote fs σ P) (f : Fault) :
    Option.Rel (WroteClause fs σ) (a.clauses.find? (·.filters.any f.caughtBy)) (P.handling? f) := clausesTake wrote.clauses f

theorem buildContained (low : a.frame < s.frames.table.size) (built : a.build s = (.ok x, s'))
    (kept : (s'.frames.frame a.frame).locals <+: (fs.frame a.frame).locals)
    (body : ∀ b, a.body = some b → ∀ τ : Slots, τ.active = σ.active → σ.next ≤ τ.next → b.Contained fs (inside fs a.frame τ))
    (clauses : ∀ c ∈ a.clauses, ∀ τ : Slots, τ.active = σ.active → σ.next ≤ τ.next → c.body.Contained fs (inside fs a.frame τ))
    (always : ∀ b, a.always = some b → ∀ τ : Slots, τ.active = σ.active → σ.next ≤ τ.next →
      b.Contained fs (inside fs a.frame τ)) : x.Contained fs σ := by
  refine Seq.containedWritten fun e active later room => ?_
  have emits := buildEmits low
  unfold Ends at emits
  rw [built] at emits
  refine (emits fs kept e room ?_ ?_ ?_).mono ?_ fun _ _ => trivial
  · exact fun b is => body b is e.slots active later
  · exact fun c inside => clauses c inside e.slots active later
  · exact fun b is => always b is e.slots active later
  · rintro _ e' ⟨P, wrote, grown, _⟩
    exact ⟨P.piece, e.slots, _, grown, rfl, Nat.le_refl _, wrote.own.piece⟩

/-- Wherever a protected region is emitted, a method runs it as the laws of the construct say: what is tried, then a clause
that takes its fault, then what is done in the end. It does so in one way. Behind it the method goes on, or its fault goes to
the regions around. -/
theorem builtRegionRuns (low : a.frame < s.frames.table.size) (built : a.build s = (.ok x, s'))
    (kept : (s'.frames.frame a.frame).locals <+: (fs.frame a.frame).locals)
    (body : ∀ b, a.body = some b → b.Contained fs (inside fs a.frame e.slots))
    (clauses : ∀ c ∈ a.clauses, c.body.Contained fs (inside fs a.frame e.slots))
    (always : ∀ b, a.always = some b → b.Contained fs (inside fs a.frame e.slots))
    (room : e.nextSlot ≤ e.maxLocals) (closed : e.Closed) (emitted : x fs e = (.ok (), e')) {θ : Machine.Scene}
    (continues : θ.method.Continues e') :
    ∃ P later, a.Wrote fs (inside fs a.frame e.slots) P ∧ θ.method.Spans e.ops.size P.code e'.ops.size ∧
      θ.method.handlers = e.handlers ++ P.handlers ++ later ∧
      (P.Spared → ∀ st ls w z, θ.method.maxLocals ≤ ls.length → θ.Attempts P st ls w z →
        θ.Comes (P.stretch e.ops.size e'.ops.size) ⟨e.ops.size, st, ls, w⟩ z ∧
        (∀ y, θ.Comes (P.stretch e.ops.size e'.ops.size) ⟨e.ops.size, st, ls, w⟩ y → y = z) ∧
        θ.Left (P.stretch e.ops.size e'.ops.size) later ⟨e.ops.size, st, ls, w⟩ z) := by
  have emits := buildEmits low
  unfold Ends at emits
  rw [built] at emits
  have written := emits fs kept e room body clauses always
  unfold Out at written
  rw [emitted] at written
  obtain ⟨P, wrote, grown, slot⟩ := written
  have spans := grown.spans continues
  obtain ⟨later, all⟩ := continues.handlers
  rw [grown.handlers] at all
  refine ⟨P, later, wrote, spans, all.symm, fun spared st ls w z enough runs => ?_⟩
  have here : Machine.Scene.Room P ls := fun A is => Nat.lt_of_lt_of_le (slot A is) (Nat.le_trans continues.locals enough)
  have comes := Machine.Scene.attempts wrote.own spans spared here runs
  refine ⟨comes, fun y other => other.one comes, comes.left all.symm ?_⟩
  -- Regions made before end before this one starts.
  intro pc inside h before covers
  obtain ⟨p, is, behind⟩ := closed h before
  rw [(grown.continues continues).places h.stop p is] at covers
  exact Nat.not_lt_of_le (Nat.le_trans behind inside.1) covers.2

def framed : Session := { Session.new .default .empty with frames := ⟨#[⟨[], [("fault", .throwable)], 0⟩]⟩ }

/-- A null is thrown, its fault handled, and a null is made in the end. -/
def handled : Attempt :=
  ⟨0, some (Emit.ops [.constNull, .throw]), [⟨[.kind .nullPointer], ⟨0, 0, "fault", .throwable⟩, Emit.ops [.nop]⟩],
    some (Emit.ops [.constNull, .pop 1])⟩

/-- The fault of the null is in its local once all is done. -/
theorem nullHandled : ∃ x s e m, handled.build framed = (.ok x, s) ∧ x s.frames .empty = (.ok (), e) ∧ m.Continues e ∧
    ∀ lib depth w, (⟨lib, m, depth⟩ : Machine.Scene).Joins ⟨0, [], [.null, .null], w⟩
      ⟨e.ops.size, [], [.throwable .nullPointer, .null], w⟩ := by
  obtain ⟨x, s, built, kept, ok, room⟩ : ∃ x s, handled.build framed = (.ok x, s) ∧
      (s.frames.frame 0).locals = [("fault", .throwable), ("$rethrow1", .throwable)] ∧
      (x s.frames .empty).1.isOk = true ∧ (x s.frames .empty).2.maxLocals = 2 :=
    ⟨_, _, rfl, by decide +kernel, by decide +kernel, by decide +kernel⟩
  rcases emitted : x s.frames .empty with ⟨err | ⟨⟩, e⟩
  · rw [emitted] at ok
    contradiction
  rw [emitted] at room
  let m : Method := ⟨⟨"test", "m", [], .void, true⟩, e.ops, (e.labels.toList.map (·.getD 0)).toArray, e.handlers, e.maxLocals, 1⟩
  have continues : m.Continues e := (show m.Written m.ref e from ⟨rfl, rfl, rfl, rfl, rfl⟩).continues
  refine ⟨x, s, e, m, built, emitted, continues, fun lib depth w => ?_⟩
  have plain : ∀ os σ, Seq.Contained s.frames σ (Emit.ops os) := fun os _ => Seq.containedOps os
  obtain ⟨P, later, wrote, spans, _, runs⟩ := builtRegionRuns (θ := ⟨lib, m, depth⟩) (by decide) built (List.prefix_refl _)
    (fun b is => Option.some.inj is ▸ plain _ _) (fun c inside => List.mem_singleton.1 inside ▸ plain _ _)
    (fun b is => Option.some.inj is ▸ plain _ _) (Nat.le_refl _) Emitter.emptyClosed emitted continues
  have placed := Protection.placed spans
  obtain ⟨b, is, body⟩ := wrote.body
  cases is
  rcases taken : P.handling? .nullPointer with _ | h
  · nomatch taken ▸ wrote.handling .nullPointer
  rcases closes : P.always with _ | A
  · nomatch closes ▸ wrote.always
  obtain ⟨_, found, clause⟩ := Option.rel_some_some.1 (taken ▸ wrote.handling .nullPointer)
  obtain ⟨again, after⟩ := Option.rel_some_some.1 (closes ▸ wrote.always)
  obtain ⟨bodyOps, bodyFree⟩ := Seq.opsWrote body
  obtain ⟨clauseOps, clauseFree⟩ := Seq.opsWrote clause
  obtain ⟨againOps, _⟩ := Seq.opsWrote again
  obtain ⟨afterOps, afterFree⟩ := Seq.opsWrote after
  have slot : h.slot = 0 := by
    unfold inside at found
    rw [show (s.frames.frame handled.frame).locals = _ from kept] at found
    exact Option.some.inj found.symm
  have spared : P.Spared := by
    intro A' is
    cases closes.symm.trans is
    rw [againOps]
    simp [Machine.stores]
  refine (runs spared [] [.null, .null] w (.completed [] [.throwable .nullPointer, .null] w) (Nat.le_of_eq room) ?_).2.2
  refine ⟨.faulted .nullPointer [.null, .null] w, .completed [] [.throwable .nullPointer, .null] w, ?_, ?_, ?_⟩
  · refine Machine.Scene.runsStraight (r := .error .nullPointer) ?_ bodyFree (placed.start ▸ placed.body)
    rw [bodyOps]
    exact .next (fun _ _ _ => rfl) (.fault fun _ _ _ => rfl)
  · obtain ⟨_, _, _, _, at_, _⟩ := Protection.handlerInClause wrote.own placed (List.mem_of_find?_eq_some taken)
    simp only [Machine.Scene.Handles, taken, slot]
    refine Machine.Scene.runsStraight (r := .ok []) ?_ clauseFree (at_.entry ▸ at_.body)
    rw [clauseOps]
    exact .next (fun _ _ _ => rfl) .done
  · simp only [Machine.Scene.Closes, closes]
    refine Machine.Scene.runsStraight (r := .ok []) ?_ afterFree (placed.afterwards closes)
    rw [afterOps]
    exact .next (fun _ _ _ => rfl) (.next (fun _ _ _ => rfl) .done)

/-! ### Sequences that do not keep to themselves -/

/-- What a method comes to that does this and then returns a constant, if the verifier accepts it. -/
def comesTo (fs : Frames) (x : Seq) : Option (Except Stop Value) :=
  let (m, fs) := MethodDraft.newStatic fs "test" "m" [] .int32
  match (m.withBody do
    x
    Emit.ops [.const (.int 1), .ret 1]).render fs .empty true with
  | .ok m => some (Machine.exec .empty 100 1 (.start m []) (.empty .empty)).1
  | .error _ => none

def quotient : Seq := Emit.ops [.const (.int 1), .const (.int 0), .arith .div .int, .pop 1]

/-- What is done in the end stores into the slot of the pending fault. -/
def overwrites (body : Seq) : Attempt := ⟨0, some body, [], some (Emit.ops [.constNull, .store 1])⟩

/-- What a clause does is between the labels of what is tried: it binds the second of them again. -/
def rebinds : Attempt :=
  ⟨0, some quotient, [⟨[.kind .divideByZero], ⟨0, 0, "fault", .throwable⟩, do
    Emit.ops [.constNull, .throw]
    Emit.mark 1⟩, ⟨[.kind .nullPointer], ⟨0, 0, "fault", .throwable⟩, Emit.ops [.nop]⟩], none⟩

/-- A region is made before it ends, and so before those that are inside. What it takes is raised again. -/
def surrounded (x : Seq) : Seq := do
  let start ← Emit.newLabel
  let stop ← Emit.newLabel
  let target ← Emit.newLabel
  let done ← Emit.newLabel
  Emit.mark start
  Emit.region start stop target .any
  x
  Emit.mark stop
  Emit.jump done
  Emit.mark target
  Emit.op .throw
  Emit.mark done

/-- A fault that no clause takes is not raised again, a fault of a clause is handled by another, and a fault that a clause
takes goes past it. -/
theorem pendingFaultLost :
    (∃ x y s, (overwrites quotient).build framed = (.ok x, s) ∧ (overwrites (Emit.ops [])).build framed = (.ok y, s) ∧
      comesTo s.frames quotient = some (.error (.fault .divideByZero)) ∧ comesTo s.frames y = some (.ok (.int 1)) ∧
      comesTo s.frames x = some (.error (.fault .nullPointer))) ∧
    (∃ x s, rebinds.build framed = (.ok x, s) ∧
      comesTo s.frames (Emit.ops [.constNull, .throw]) = some (.error (.fault .nullPointer)) ∧
      comesTo s.frames x = some (.ok (.int 1))) ∧
    ∃ x s, handled.build framed = (.ok x, s) ∧ comesTo s.frames x = some (.ok (.int 1)) ∧
      comesTo s.frames (surrounded x) = some (.error (.fault .nullPointer)) := by
  refine ⟨⟨_, _, _, rfl, rfl, ?_, ?_, ?_⟩, ⟨_, _, rfl, ?_, ?_⟩, _, _, rfl, ?_, ?_⟩ <;> decide +kernel

end Attempt

end QueryMachine
