import QueryMachine.Proofs.Program.Entry
import QueryMachine.Proofs.Unit.Accessor
import QueryMachine.Proofs.Unit.Slots

/-! Methods that read a property of their parameter, and the code they get. -/
namespace QueryMachine

open Emit (Out)

/-! ### Slots of parameters -/

theorem layoutNarrow {front ts : List Ty} (narrow : ∀ t ∈ front, t.width ≤ 1)
    (starts : ∀ (i : Nat) t, front[i]? = some t → ts[i]? = some t) (next : Nat) :
    next + front.length ≤ (Emit.layout next ts).2 ∧
      ∀ (i : Nat), i < front.length → (Emit.layout next ts).1[i]? = some (next + i) := by
  induction front generalizing ts next with
  | nil =>
    refine ⟨?_, nofun⟩
    induction ts generalizing next with
    | nil => exact Nat.le_refl next
    | cons t ts ih => exact Nat.le_trans (Nat.le_add_right next _) (ih nofun (next + max t.width 1))
  | cons t front ih =>
    cases ts with
    | nil => exact absurd (starts 0 t rfl) nofun
    | cons t' ts =>
      cases starts 0 t rfl
      have one : max t.width 1 = 1 := Nat.max_eq_right (narrow t List.mem_cons_self)
      have later : ∀ (i : Nat) u, front[i]? = some u → ts[i]? = some u := fun i u at_ => starts (i + 1) u at_
      obtain ⟨stop, slots⟩ := ih (fun u inside => narrow u (List.mem_cons_of_mem t inside)) later (next + max t.width 1)
      rw [one] at stop slots
      refine ⟨?_, ?_⟩
      · simp only [Emit.layout, one, List.length_cons]
        omega
      · intro i low
        cases i with
        | zero => rfl
        | succ i =>
          simp only [Emit.layout, one, List.getElem?_cons_succ]
          rw [slots i (Nat.lt_of_succ_lt_succ low)]
          congr 1
          omega

theorem Slots.bodyFinds {fs : Frames} {f : FrameId} {l : Local} (frame : l.frame = f) :
    (Slots.body fs f).find? l = (Emit.layout 0 ((fs.frame f).locals.map (·.2))).1[l.index]? := by
  simp [Slots.find?, Slots.body, Slots.enter, frame]

namespace MethodDraft

theorem Created.narrow {fs made : Frames} {receiver : Option Ty} {params : List (String × Ty)} {m : MethodDraft}
    (created : Created fs receiver params m made) (reference : ∀ t, receiver = some t → t.nonNull.width ≤ 1)
    (all : ∀ p ∈ params, p.2.width ≤ 1) : ∀ l ∈ m.receiver.toList ++ m.locals, l.type.width ≤ 1 := by
  intro l inside
  rcases List.mem_append.1 inside with this | param
  · have typed := created.receiver
    rw [Option.mem_toList.1 this, Option.map_some] at typed
    obtain ⟨t, is, same⟩ := Option.map_eq_some_iff.1 typed.symm
    rw [← same]
    exact reference t is
  · have typed : (l.name, l.type) ∈ params := by
      rw [← created.locals]
      exact List.mem_map_of_mem param
    exact all _ typed

theorem Created.slots {fs made fs' : Frames} {receiver : Option Ty} {params : List (String × Ty)} {m : MethodDraft}
    (created : Created fs receiver params m made) (grows : made.Grows fs')
    (narrow : ∀ l ∈ m.receiver.toList ++ m.locals, l.type.width ≤ 1) :
    (m.receiver.toList ++ m.locals).length ≤ (Slots.body fs' m.frame).next ∧
      ∀ (i : Nat) l, (m.receiver.toList ++ m.locals)[i]? = some l → (Slots.body fs' m.frame).find? l = some i := by
  have starts : ∀ (i : Nat) t, ((m.receiver.toList ++ m.locals).map (·.type))[i]? = some t →
      ((fs'.frame m.frame).locals.map (·.2))[i]? = some t := by
    intro i t at_
    rw [List.getElem?_map] at at_
    obtain ⟨l, here, rfl⟩ := Option.map_eq_some_iff.1 at_
    obtain ⟨frame, has⟩ := created.has l (List.mem_of_getElem? here)
    have there := (has.later grows).here
    rw [created.indexed i l here, frame] at there
    rw [List.getElem?_map, there]
    rfl
  obtain ⟨stop, slots⟩ := layoutNarrow (by
    intro t inside
    obtain ⟨l, member, rfl⟩ := List.mem_map.1 inside
    exact narrow l member) starts 0
  rw [List.length_map] at stop slots
  rw [Nat.zero_add] at stop
  refine ⟨stop, ?_⟩
  intro i l here
  obtain ⟨frame, _⟩ := created.has l (List.mem_of_getElem? here)
  rw [Slots.bodyFinds frame, created.indexed i l here, slots i (List.getElem?_eq_some_iff.1 here).1, Nat.zero_add]

end MethodDraft

theorem Emitter.Wrote.outRead {E : Error → Prop} {fs : Frames} {e : Emitter} {σ : Slots} {A : Asm} {n slot : Nat}
    {Q : Unit → Emitter → Prop} {l : Local} (wrote : e.Wrote σ A n) (found : σ.find? l = some slot)
    (narrow : l.type.width ≤ 1) (next : ∀ e', e'.Wrote σ (A ++ [.op (.load slot)]) n → Q () e') :
    Out l.read.generate fs e E Q := by
  have one : ¬ l.type.width = 2 := Nat.ne_of_lt (Nat.lt_succ_of_le narrow)
  unfold Local.read Emit.load
  rw [Emit.outBind]
  refine wrote.outSlot found ?_
  rw [if_neg one]
  exact wrote.outOp next

/-! ### Readers -/

def Asm.readsAt (held site : Nat) (name : String) : Asm :=
  [.op (.load 0), .op (.dup 1), .op (.ifNonNull 2), .op (.pop 1), .op (.jump 0), .mark 2, .op (.store held),
    .op (.load held), .op (.dynamic site (.getProperty name)), .op (.jump 1), .mark 0, .op .constNull, .mark 1, .op (.ret 1)]

namespace Build

def reading (cls method : String) (type : Ty) (name : String) : Build MethodDraft := do
  let m ← newMethod cls method none [("it", type)] .any
  match m.locals with
  | it :: _ => return m.withValue (← property m.frame it.read name)
  | [] => return m

def fieldOf (cls : String) (f : String × Ty) (target : Expr) : Expr :=
  ⟨f.2, do
    target.generate
    Emit.op (.getField (Struct.fieldRef cls f))⟩

def readAt (site : Nat) (held : Local) (name : String) : Expr :=
  ⟨.any, do
    held.read.generate
    Emit.op (.dynamic site (.getProperty name))
    Emit.downcast .any⟩

def readGuarded (target present : Expr) (held : Local) : Expr :=
  ⟨present.type.boxed.orNull, do
    let isNull ← Emit.newLabel
    let done ← Emit.newLabel
    target.generate
    let _ ← Emit.nullTest target.type isNull
    Emit.store (← Emit.slotOf held) held.type.width
    present.generateAs present.type.boxed.orNull
    Emit.jump done
    Emit.mark isNull
    Emit.op .constNull
    Emit.mark done⟩

variable {cls host method name : String} {fields : List (String × Ty)} {s : Session} {frame : FrameId} {target : Expr}

theorem readingOpens (host method : String) (type : Ty) (name : String) (s : Session) :
    ∃ (m : MethodDraft) (it : Local) (made : Frames), MethodDraft.Created s.frames none [("it", type)] m made ∧
      m.receiver = none ∧ m.locals = [it] ∧ it.type = type ∧ m.returns = .any ∧ reading host method type name s =
        (do return m.withValue (← property m.frame it.read name) : Build MethodDraft) { s with frames := made } :=
  ⟨_, _, _, MethodDraft.created s.frames host method none [("it", type)] .any, rfl, rfl, rfl, rfl, rfl⟩

theorem readingIs (host method : String) {type : Ty} (narrow : type.width ≤ 1) (name : String) (s : Session) :
    ∃ (m : MethodDraft) (it : Local) (made : Frames), it.type = type ∧ m.returns = .any ∧ m.frame < made.table.size ∧
      (made.frame m.frame).locals.map (·.2) = [type] ∧ (∀ fs, made.Grows fs → (Slots.body fs m.frame).Holds it 0) ∧
      reading host method type name s =
        (do return m.withValue (← property m.frame it.read name) : Build MethodDraft) { s with frames := made } := by
  obtain ⟨m, it, made, created, receiver, locals, typed, returns, is⟩ := readingOpens host method type name s
  have own : m.receiver.toList ++ m.locals = [it] := by rw [receiver, locals]; rfl
  refine ⟨m, it, made, typed, returns, ?_, created.whole, ?_, is⟩
  · rw [created.frame, created.size]
    exact Nat.lt_succ_self _
  · intro fs grows
    have thin : it.type.width ≤ 1 := by rw [typed]; exact narrow
    obtain ⟨room, slots⟩ := created.slots grows (by
      rw [own]
      exact fun l inside => List.mem_singleton.1 inside ▸ thin)
    rw [own] at room slots
    exact ⟨slots 0 it rfl, by rw [Nat.max_eq_right thin]; exact room⟩

theorem propertyFound {f : String × Ty} (typed : target.type = .struct false cls fields)
    (found : Ty.fieldNamed? fields name = some f) (s : Session) :
    property frame target name s = (.ok (fieldOf cls f target), s) := by
  have accessed : PropertyAccess.of? target.type = some (.struct cls fields) := by rw [typed]; rfl
  have nonNull : target.type.isNullable = false := by rw [typed]; rfl
  have read : (PropertyAccess.struct cls fields).read target name s = (.ok (fieldOf cls f target), s) := by
    unfold PropertyAccess.read PropertyAccess.type
    simp only [found]
    rfl
  have checked : lift ((PropertyAccess.struct cls fields).type name) s = (.ok f.2, s) := by
    unfold PropertyAccess.type
    simp only [found]
    rfl
  unfold property guarded
  simp only [accessed, nonNull]
  rw [bindOk checked]
  exact read

theorem propertyMissing (typed : target.type = .struct false cls fields) (missing : Ty.fieldNamed? fields name = none)
    (s : Session) : property frame target name s = (.error (.of (.propertyNotFound cls name)), s) := by
  have accessed : PropertyAccess.of? target.type = some (.struct cls fields) := by rw [typed]; rfl
  have checked : lift ((PropertyAccess.struct cls fields).type name) s =
      (.error (.of (.propertyNotFound cls name)), s) := by
    unfold PropertyAccess.type
    simp only [missing]
    rfl
  unfold property
  simp only [accessed]
  rw [bindError checked]

theorem propertyDynamic (typed : target.type = .any) (frame : FrameId) (name : String) (s : Session) :
    ∃ held frames, s.frames.temp frame "guard" Ty.any.nonNull = (held, frames) ∧ property frame target name s =
      (.ok (readGuarded target (readAt s.nextSite held name) held), { s with frames, nextSite := s.nextSite + 1 }) := by
  have accessed : PropertyAccess.of? target.type = some .dynamic := by rw [typed]; rfl
  have nullable : target.type.isNullable = true := by rw [typed]; rfl
  rcases made : s.frames.temp frame "guard" Ty.any.nonNull with ⟨held, frames⟩
  refine ⟨held, frames, rfl, ?_⟩
  have keeps : temp frame "guard" target.type.nonNull s = (.ok held, { s with frames }) := by
    have is : temp frame "guard" Ty.any.nonNull s = (.ok (s.frames.temp frame "guard" Ty.any.nonNull).1,
      { s with frames := (s.frames.temp frame "guard" Ty.any.nonNull).2 }) := rfl
    rw [typed, is, made]
  have reads : PropertyAccess.dynamic.read held.read name { s with frames } =
      (.ok (readAt s.nextSite held name), { s with frames, nextSite := s.nextSite + 1 }) := rfl
  unfold property guarded
  simp only [accessed, nullable]
  rw [bindOk (show lift (PropertyAccess.dynamic.type name) s = (.ok .any, s) from rfl)]
  change (temp frame "guard" target.type.nonNull >>= _) s = _
  rw [bindOk keeps, bindOk reads]
  rfl

theorem fieldFills {f : String × Ty} {it : Local} (narrow : it.type.width = 1) (sized : f.2 ≠ .void) :
    (Seq.ret (fieldOf cls f it.read) .any).Fills (fun _ => False) (fun _ => True) (fun _ σ => σ.Holds it 0) 1
      fun _ _ hs => True ∧ hs = [] := by
  refine Struct.fillsOf (K := fun _ => True) ?_
  intro fs e holds walk
  unfold Seq.ret Expr.generateAs fieldOf Local.read
  rw [Emit.castAny, show Ty.any.width = 1 from rfl]
  simp only [Emit.outBind]
  refine walk.outSlot holds ?_
  refine walk.outLoad holds (by rw [narrow]; exact Nat.one_ne_zero) ?_
  intro e₁ walk
  rw [narrow] at walk
  refine walk.outMember rfl rfl rfl rfl trivial (Nat.le_refl _) ?_
  intro e₂ walk
  refine Walk.outBox (k := 0) sized walk ?_
  intro e₃ walk
  refine Struct.outReturn walk ?_
  intro e₄ walk
  exact ⟨_, _, trivial, rfl, Nat.le_refl _, walk⟩

theorem readAtWrites {E : Error → Prop} {knows : String → Prop} {Γ : Frames → Slots → Prop} {held : Local}
    (typed : held.type = Ty.any.nonNull) (holds : ∀ fs σ, Γ fs σ → ∃ s, σ.Holds held s) (site : Nat) (name : String) :
    (readAt site held name).Writes E knows Γ (Followed (Read held) (Gets .dynamic name .any)) := by
  have source : held.read.Writes E knows Γ (Read held) := localWrites (typed ▸ .atom) holds
  have width : held.read.type.width = 1 := by
    change held.type.width = 1
    rw [typed]
    rfl
  refine ⟨.atom, emitsOf ?_⟩
  intro fs e visible walk
  unfold readAt
  simp only [Emit.outBind]
  refine walk.outPart source.emits visible ?_
  intro e₁ B shape walk
  rw [width] at walk
  refine walk.outPlain ⟨rfl, rfl, rfl, rfl⟩ (Nat.le_refl 1) ?_
  intro e₂ walk
  exact walk.finished ⟨B, _, shape, ⟨site, rfl⟩, rfl⟩ (by simp [show Asm.downcast .any = [] from rfl]) rfl fun _ h => h

theorem guardedFills {it held : Local} (typed : it.type = .any) (typed' : held.type = Ty.any.nonNull) (site : Nat) (name : String) :
    (Seq.ret (readGuarded it.read (readAt site held name) held) .any).Fills (fun _ => False) (fun _ => True)
      (fun _ σ => σ.Holds it 0 ∧ ∃ s, σ.Holds held s) 1
      (Returned (Guarded (Read it) (Followed (Read held) (Gets .dynamic name .any)) it.type .any held) .any) := by
  have target : it.read.Writes (fun _ => False) (fun _ => True) (fun _ σ => σ.Holds it 0 ∧ ∃ s, σ.Holds held s) (Read it) :=
    localWrites (typed ▸ .atom) fun _ _ h => ⟨0, h.1⟩
  have nullable : it.read.type.isNullable = true := by
    change it.type.isNullable = true
    rw [typed]
    rfl
  have present : (readAt site held name).Writes (fun _ => False) (fun _ => True) (fun _ σ => σ.Holds it 0 ∧ ∃ s, σ.Holds held s)
      (Followed (Read held) (Gets .dynamic name .any)) := readAtWrites typed' (fun _ _ h => h.2) site name
  exact valueFills (guardedWrites target present nullable (by rw [typed']; exact congrArg Ty.nonNull typed.symm) fun _ _ h => h.2)

theorem readerRenders {m : MethodDraft} {x : Expr} {Γ : Frames → Slots → Prop} {K : Slots → Asm → List Handler → Prop}
    {fs : Frames} (returns : m.returns = .any) (fills : (Seq.ret x .any).Fills (fun _ => False) (fun _ => True) Γ 1 K)
    (visible : Γ fs (Slots.body fs m.frame)) (fits : (m.withValue x).Fits fs) (h : Heap) (verifying : Bool) :
    ∃ rendered, (m.withValue x).render fs h verifying = .ok rendered := by
  have body : (m.withValue x).body = some (Seq.ret x .any) := by rw [← returns]; rfl
  have width : (m.withValue x).returns.width = 1 := by
    change m.returns.width = 1
    rw [returns]
    rfl
  have answers := MethodDraft.rendered body (width ▸ fills) visible h verifying
  cases is : (m.withValue x).render fs h verifying with
  | ok rendered => exact ⟨rendered, rfl⟩
  | error f =>
    rw [is] at answers
    exact absurd fits (answers.resolve_left id).2

theorem fieldTakes (cls : String) (f : String × Ty) (l : Local) : Emit.Takes 0 (fieldOf cls f l.read).generate :=
  (Emit.takesRead l).bind fun _ => Emit.takesOp _

theorem guardedTakes (site : Nat) (it held : Local) (name : String) :
    Emit.Takes 0 (readGuarded it.read (readAt site held name) held).generate :=
  Emit.takesLabel.bind fun _ => Emit.takesLabel.bind fun _ => (Emit.takesRead it).bind fun _ => (Emit.takesNullTest _ _).bind fun _ =>
    (Emit.takesSlotOf held).bind fun _ => (Emit.takesStore _ _).bind fun _ =>
      (((Emit.takesRead held).bind fun _ => (Emit.takesOp _).bind fun _ => Emit.takesDowncast .any).bind fun _ =>
        Emit.takesCast _ _).bind fun _ => (Emit.takesOp _).bind fun _ => (Emit.takesMark _).bind fun _ =>
          (Emit.takesOp _).bind fun _ => Emit.takesMark _

theorem readerFits {m : MethodDraft} {x : Expr} {fs : Frames} {ts : List Ty} (takes : Emit.Takes 0 x.generate)
    (locals : (fs.frame m.frame).locals.map (·.2) = ts) (narrow : ∀ t ∈ ts, t.width ≤ 1) (few : ts.length ≤ 8) :
    (m.withValue x).Fits fs := by
  refine MethodDraft.fitsFrame (m := m.withValue x) rfl (Emit.takesReturn takes m.returns) locals ?_
  rw [MethodDraft.narrowSlots narrow]
  exact Nat.le_trans few (by decide)

theorem readingStatic (cls : String) {f : String × Ty} (found : Ty.fieldNamed? fields name = some f) (host method : String)
    (s : Session) :
    ∃ m s', reading host method (.struct false cls fields) name s = (.ok m, s') ∧ m.Fits s'.frames ∧
      ∀ fs, s'.frames.Grows fs → ∀ h verifying,
        (f.2 ≠ .void → m.Fits fs → ∃ rendered, m.render fs h verifying = .ok rendered) ∧
        ∀ rendered, m.render fs h verifying = .ok rendered →
          rendered.Lays (Struct.getCode cls 0 f) ∧ rendered.handlers = [] := by
  obtain ⟨m, it, made, type, returns, _, locals, at_, is⟩ :=
    readingIs host method (show (Ty.struct false cls fields).width ≤ 1 from Nat.le_refl 1) name s
  rw [is, bindOk (propertyFound type found _)]
  refine ⟨_, _, rfl, readerFits (fieldTakes cls f it) locals ?_ (by simp), ?_⟩
  · exact List.forall_mem_singleton.2 (Nat.le_refl 1)
  intro fs grows h verifying
  refine ⟨fun sized fits => readerRenders returns (fieldFills (type ▸ rfl) sized) (at_ fs grows) fits h verifying, ?_⟩
  intro rendered renders
  have nonVoid : m.returns.isVoid = false := by rw [returns]; rfl
  have distinct : (Struct.getCode cls 0 f).labels.Nodup := by
    unfold Struct.getCode Asm.box
    cases f.2 <;> exact List.nodup_nil
  refine (MethodDraft.renderLaid 0 renders rfl nonVoid (fun e wrote => ?_) distinct).imp id And.left
  unfold Seq.ret Expr.generateAs fieldOf
  rw [returns, Emit.castAny]
  simp only [Emit.outBind]
  refine wrote.outRead (at_ fs grows).1 (type ▸ Nat.le_refl 1) ?_
  intro e₁ wrote
  refine wrote.outOp ?_
  intro e₂ wrote
  refine wrote.outBox ?_
  intro e₃ wrote
  refine wrote.outOp ?_
  intro e₄ wrote
  exact ⟨_, _, by simpa [Struct.getCode, show Ty.any.width = 1 from rfl] using wrote, Nat.zero_le _⟩

theorem readingDynamic (host method name : String) (s : Session) :
    ∃ m s', reading host method .any name s = (.ok m, s') ∧ m.Fits s'.frames ∧
      ∀ fs, s'.frames.Grows fs → ∀ h verifying, (m.Fits fs → ∃ rendered, m.render fs h verifying = .ok rendered) ∧
        ∀ rendered, m.render fs h verifying = .ok rendered → ∃ held site, rendered.Lays (Asm.readsAt held site name) ∧
          rendered.handlers = [] ∧ held < rendered.maxLocals := by
  obtain ⟨m, it, made, type, returns, low, locals, at_, is⟩ :=
    readingIs host method (show Ty.any.width ≤ 1 from Nat.le_refl 1) name s
  obtain ⟨held, frames, kept, built⟩ :=
    propertyDynamic (show it.read.type = .any from type) m.frame name { s with frames := made }
  rw [is, bindOk built]
  have both : (frames.frame m.frame).locals.map (·.2) = [.any, Ty.any.nonNull] := by
    have added := Frames.tempLocals low "guard" Ty.any.nonNull
    rw [show made.temp m.frame "guard" Ty.any.nonNull = _ from kept] at added
    rw [added, locals]
    rfl
  refine ⟨_, _, rfl, readerFits (guardedTakes _ it held name) both (by decide) (by decide), ?_⟩
  intro fs grows h verifying
  have grown : made.Grows fs := by
    have temps := made.tempGrows m.frame "guard" Ty.any.nonNull
    rw [kept] at temps
    exact temps.trans grows
  have temp : held.frame = m.frame ∧ held.type = Ty.any.nonNull ∧ frames.Has held := by
    obtain ⟨frame, typed, _⟩ := made.tempIs m.frame "guard" Ty.any.nonNull
    have has := Frames.tempHas low "guard" Ty.any.nonNull
    rw [kept] at frame typed has
    exact ⟨frame, typed, has⟩
  obtain ⟨frame, typed, has⟩ := temp
  obtain ⟨slot, holds, _⟩ := enteredHolds (σ := ⟨[], 0⟩) (has.later grows)
  rw [frame] at holds
  have holds : (Slots.body fs m.frame).Holds held slot := holds
  have widths : held.type.width = 1 := by rw [typed]; rfl
  have within : slot + 1 ≤ (Slots.body fs m.frame).next := by
    have inside := holds.2
    rwa [widths] at inside
  refine ⟨fun fits => readerRenders returns (guardedFills type typed s.nextSite name) ⟨at_ fs grown, slot, holds⟩ fits h verifying,
    ?_⟩
  intro rendered renders
  have nonVoid : m.returns.isVoid = false := by rw [returns]; rfl
  refine ⟨slot, s.nextSite, ?_⟩
  refine (MethodDraft.renderLaid (slot + 1) renders rfl nonVoid (fun e wrote => ?_) ?_).imp id fun rest => ⟨rest.1, rest.2.2⟩
  · have narrowed : Emit.downcast .any = pure () := rfl
    have boxed : Emit.box .any = pure () := rfl
    have any : (readAt s.nextSite held name).type.boxed.orNull = .any := rfl
    have any' : (readAt s.nextSite held name).type = .any := rfl
    have tested : ∀ l, Emit.nullTest it.read.type l = (do
        let done ← Emit.newLabel
        Emit.op (.dup 1)
        Emit.op (.ifNonNull done)
        Emit.op (.pop 1)
        Emit.jump l
        Emit.mark done
        return true) := by
      intro l
      rw [show it.read.type = .any from type]
      rfl
    unfold Seq.ret Expr.generateAs readGuarded
    rw [returns, Emit.castAny, any]
    simp only [Expr.generateAs, tested, any', Emit.castAny, boxed, Emit.outBind, Emit.outPure]
    refine wrote.outLabel ?_
    intro e₁ wrote
    refine wrote.outLabel ?_
    intro e₂ wrote
    refine wrote.outRead (at_ fs grown).1 (type ▸ Nat.le_refl 1) ?_
    intro e₃ wrote
    refine wrote.outLabel ?_
    intro e₄ wrote
    refine wrote.outOp ?_
    intro e₅ wrote
    refine wrote.outOp ?_
    intro e₆ wrote
    refine wrote.outOp ?_
    intro e₇ wrote
    refine wrote.outOp ?_
    intro e₈ wrote
    refine wrote.outMark (by decide) ?_
    intro e₉ wrote
    refine wrote.outSlot holds.1 ?_
    rw [widths]
    refine wrote.outOp ?_
    intro e₁₀ wrote
    unfold readAt
    simp only [Emit.outBind, narrowed, Emit.outPure]
    refine wrote.outRead holds.1 (Nat.le_of_eq widths) ?_
    intro e₁₁ wrote
    refine wrote.outOp ?_
    intro e₁₂ wrote
    refine wrote.outOp ?_
    intro e₁₃ wrote
    refine wrote.outMark (by decide) ?_
    intro e₁₄ wrote
    refine wrote.outOp ?_
    intro e₁₅ wrote
    refine wrote.outMark (by decide) ?_
    intro e₁₆ wrote
    refine wrote.outOp ?_
    intro e₁₇ wrote
    exact ⟨_, _, wrote, within⟩
  · show ([2, 0, 1] : List Label).Nodup
    decide

theorem readingRefused (cls : String) (missing : Ty.fieldNamed? fields name = none) (host method : String) (s : Session) :
    ∃ s', reading host method (.struct false cls fields) name s = (.error (.of (.propertyNotFound cls name)), s') := by
  obtain ⟨m, it, made, type, _, _, _, _, is⟩ :=
    readingIs host method (show (Ty.struct false cls fields).width ≤ 1 from Nat.le_refl 1) name s
  rw [is, bindError (propertyMissing type missing _)]
  exact ⟨_, rfl⟩

end Build

end QueryMachine
