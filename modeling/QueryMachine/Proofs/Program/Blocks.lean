import QueryMachine.Proofs.Program.Builders

/-! Records and loops, which hold values in frames of their own. -/
namespace QueryMachine

open Build Conversion

namespace RecordDraft

def Entries.Are (es : List (String × Expr)) : Entries → Prop
  | .closed fields => fields = es
  | .free steps => steps = es.map fun e => .field e.1 e.2

theorem Entries.stepsAre {es : List (String × Expr)} {entries : Entries} (are : entries.Are es) :
    entries.steps = es.map fun e => .field e.1 e.2 := by
  cases entries with
  | closed fields =>
    cases are
    rfl
  | free steps => exact are

theorem addFieldAre {r : RecordDraft} {es : List (String × Expr)} (are : r.entries.Are es) (name : String) (value : Expr) :
    (r.addField name value).frame = r.frame ∧ (r.addField name value).prelude = r.prelude ∧
      (r.addField name value).entries.Are (es ++ [(name, value)]) := by
  have freed : (Entries.free (r.entries.steps ++ [.field name value])).Are (es ++ [(name, value)]) := by
    change _ = _
    rw [Entries.stepsAre are, List.map_append]
    rfl
  unfold addField
  split
  · next fields is _ =>
    rw [is] at are
    exact ⟨rfl, rfl, congrArg (· ++ [(name, value)]) are⟩
  · exact ⟨rfl, rfl, freed⟩

theorem addAllSteady {r : RecordDraft} {es : List (String × Expr)} (are : r.entries.Are es)
    (more : List (String × Expr)) :
    Steady (more.foldlM (fun r (name, value) => RecordDraft.add r name value) r) fun r' =>
      r'.frame = r.frame ∧ r'.prelude = r.prelude ∧ r'.entries.Are (es ++ more) := by
  induction more generalizing r es with
  | nil => exact steadyPure ⟨rfl, rfl, by simpa using are⟩
  | cons e more ih =>
    obtain ⟨frame, prelude, are'⟩ := addFieldAre are e.1 e.2
    rw [List.foldlM_cons]
    refine steadyBind (P := fun r' => r' = r.addField e.1 e.2) ?_ ?_
    · unfold RecordDraft.add
      dsimp only
      cases void : e.2.type.isVoid with
      | true => exact steadyFail rfl
      | false => exact steadyPure rfl
    · intro r' is
      rw [is]
      refine (ih are').mono ?_
      intro r'' ⟨frame', prelude', are''⟩
      exact ⟨frame'.trans frame, prelude'.trans prelude, by simpa using are''⟩

end RecordDraft

namespace Account

variable {Z : Account} {s : Session} {items : List Local}

theorem Stands.apart {f : FrameId} (stands : Z.Stands s items) (new : s.frames.table.size ≤ f) :
    Z.root ≠ f ∧ ∀ l ∈ items, l.frame ≠ f :=
  ⟨Nat.ne_of_lt (Nat.lt_of_lt_of_le stands.low new),
    fun l inside => Nat.ne_of_lt (Nat.lt_of_lt_of_le (stands.items l inside) new)⟩

theorem closedAdvances {f : FrameId} {fields : List (String × Expr)} (rules : Z.Compositional) (good : s.Good)
    (apart : Z.root ≠ f ∧ ∀ l ∈ items, l.frame ≠ f) (low : f < s.frames.table.size)
    (values : ∀ e ∈ fields, Z.Lowered s items e.2) :
    Advances (RecordDraft.closedValue f [] fields) s fun r s' => Z.Lowered s' items r := by
  have regular := RecordDraft.layoutRegular fun e inside => (values e inside).regular
  unfold RecordDraft.closedValue
  refine advancesBind (Struct.typeAdvances good regular) ?_
  intro type s₁ later good ⟨known, ⟨cls, is⟩, regular⟩
  subst is
  have values := fun e inside => (values e inside).later rules later
  refine advancesBind (advancesTemp good (Nat.lt_of_lt_of_le low later.frames.more) "record" regular) ?_
  intro object s₂ later good ⟨frame, _, has, _, _⟩
  refine advancesPure good ?_
  have values := fun e inside => (values e inside).later rules later
  subst frame
  have name : s₂.Knows cls := by
    cases regular.mono later.knows with
    | struct is _ => exact is
  have writes : Expr.Writes Z.refuses s₂.Knows (Visible Z.root items s₂.frames)
      (RecordDraft.Closed (fun x : String × Expr => Z.tells s₂ items x.2.type) fields (·.1) (·.2) object cls
        (RecordDraft.layout fields)) _ :=
    RecordDraft.closedWrites values has apart.1 apart.2 name (regular.mono later.knows) rfl
      fun e inside field found missing => absurd missing
        (RecordDraft.layoutConverts (fun e inside => (values e inside).regular) e inside field found)
  rw [List.map_id'' fun _ => rfl] at writes
  exact loweredOf writes rfl fun _ _ shape => rules.closed (later.structs.subset known) shape

theorem openAdvances {f : FrameId} {fields : List (String × Expr)} (rules : Z.Compositional) (good : s.Good)
    (apart : Z.root ≠ f ∧ ∀ l ∈ items, l.frame ≠ f) (low : f < s.frames.table.size)
    (values : ∀ e ∈ fields, Z.Lowered s items e.2) :
    Advances (RecordDraft.openValue f [] (fields.map fun e => .field e.1 e.2)) s fun r s' => Z.Lowered s' items r := by
  unfold RecordDraft.openValue
  refine advancesBind (advancesTemp good low "record" .atom) ?_
  intro record s₁ later good ⟨frame, _, has, _, _⟩
  subst frame
  have values := fun e inside => (values e inside).later rules later
  have codes : (fields.map fun e => RecordDraft.Step.field e.1 e.2).mapM (RecordDraft.stepCode record.frame record) =
      (pure (fields.map fun e => RecordDraft.entryCode record e.1 e.2) : Build (List Seq)) := by
    rw [List.mapM_map]
    exact List.mapM_pure ..
  rw [codes, pure_bind]
  refine advancesPure good ?_
  have writes : Expr.Writes Z.refuses s₁.Knows (Visible Z.root items s₁.frames)
      (RecordDraft.Open (fun x : String × Expr => Z.tells s₁ items x.2.type) fields (·.1) (·.2) record) _ :=
    RecordDraft.openWrites values has apart.1 apart.2
  exact loweredOf writes rfl fun _ _ shape => rules.free shape

theorem recordAdvances {env : Lowering.Env} {entries : List (String × Expr)} (rules : Z.Compositional) (good : s.Good)
    (stands : Z.Stands s items) (frame : env.frame = Z.root) (values : ∀ e ∈ entries, Z.Lowered s items e.2) :
    Advances (Lowering.record entries env) s fun r s' => Z.Lowered s' items r := by
  unfold Lowering.record RecordDraft.new
  rw [frame, bind_assoc]
  refine advancesBind (advancesChild good Z.root) ?_
  intro f s₁ later good ⟨new, size, _⟩
  rw [pure_bind]
  have apart := stands.apart (Nat.le_of_eq new.symm)
  have values := fun e inside => (values e inside).later rules later
  have start : (RecordDraft.Entries.closed []).Are [] := rfl
  refine advancesBind (advancesSteady good (RecordDraft.addAllSteady start entries)) ?_
  intro r s₂ later good ⟨inside, prelude, are⟩
  have low : f < s₂.frames.table.size := by
    refine Nat.lt_of_lt_of_le ?_ later.frames.more
    rw [new, size]
    exact Nat.lt_succ_self _
  have values := fun e inside => (values e inside).later rules later
  obtain ⟨frame, before, kept⟩ := r
  cases show frame = f from inside
  cases show before = [] from prelude
  cases kept with
  | closed fields =>
    cases are
    exact closedAdvances rules good apart low values
  | free steps =>
    cases are
    exact openAdvances rules good apart low values

end Account

namespace Loop

structure Opened (site : Nat) (made : Frames) (iterable : Expr) (a : IterateAccess) (l : Loop) : Prop where
  access : IterateAccess.of? iterable.type = some a
  isOver : l.iterable = iterable
  items : l.items = []
  list : l.list = listOf a l.source site
  source : made.Has l.source ∧ l.source.frame = l.frame ∧ l.source.type = iterable.type.nonNull
  view : made.Has l.view ∧ l.view.frame = l.frame ∧ l.view.type = l.list.type.nonNull
  index : made.Has l.index ∧ l.index.frame = l.frame ∧ l.index.type = .int32
  item : made.Has l.item ∧ l.item.frame = l.frame ∧ l.item.type = a.itemType

theorem toListSteady (a : IterateAccess) (source : Local) :
    Steady (a.toList source.read) fun list => ∃ site, list = listOf a source site := by
  cases a with
  | list elem => exact steadyPure ⟨0, rfl⟩
  | dynamic =>
    refine steadyBind (steadyDynamic .iterate) ?_
    intro o ⟨site, is⟩
    exact steadyPure ⟨site, by rw [is]; rfl⟩

theorem newAdvances {s : Session} {parent : FrameId} {iterable : Expr} (good : s.Good)
    (regular : iterable.type.Regular s.Knows) :
    Advances (Loop.new parent iterable) s fun l s' => l.frame = s.frames.table.size ∧
      ∃ a site, Opened site s'.frames iterable a l := by
  unfold Loop.new
  cases access : IterateAccess.of? iterable.type with
  | none => exact advancesFail good rfl
  | some a =>
    obtain ⟨_, itemRegular, _⟩ := iterateTypes regular access
    refine advancesBind (advancesChild good parent) ?_
    intro f s₁ later₁ good ⟨new, size, _⟩
    have low : f < s₁.frames.table.size := by
      rw [new, size]
      exact Nat.lt_succ_self _
    have regular := regular.mono later₁.knows
    have itemRegular := itemRegular.mono later₁.knows
    refine advancesBind (advancesTemp good low "source" (regular.withNull false)) ?_
    intro source s₂ later₂ good ⟨sourceFrame, sourceType, sourceHas, _, _⟩
    refine advancesBind (advancesSteady good (toListSteady a source)) ?_
    intro list s₃ later₃ good ⟨site, is⟩
    have listRegular : list.type.Regular s₃.Knows := by
      rw [is]
      cases a with
      | list elem =>
        change source.type.Regular _
        rw [sourceType]
        exact ((regular.mono later₂.knows).mono later₃.knows).withNull false
      | dynamic => exact .list .atom rfl
    have low := Nat.lt_of_lt_of_le low (later₂.trans later₃).frames.more
    refine advancesBind (advancesTemp good low "list" (listRegular.withNull false)) ?_
    intro view s₄ later₄ good ⟨viewFrame, viewType, viewHas, _, _⟩
    have low := Nat.lt_of_lt_of_le low later₄.frames.more
    refine advancesBind (advancesTemp good low "index" .prim) ?_
    intro index s₅ later₅ good ⟨indexFrame, indexType, indexHas, _, _⟩
    have low := Nat.lt_of_lt_of_le low later₅.frames.more
    have itemRegular := itemRegular.mono (((later₂.trans later₃).trans later₄).trans later₅).knows
    refine advancesBind (advancesTemp good low "item" itemRegular) ?_
    intro item s₆ later₆ good ⟨itemFrame, itemType, itemHas, _, _⟩
    refine advancesPure good ⟨new, a, site, ?_⟩
    exact {
      access
      isOver := rfl
      items := rfl
      list := is
      source := ⟨sourceHas.later (((later₃.trans later₄).trans later₅).trans later₆).frames, sourceFrame, sourceType⟩
      view := ⟨viewHas.later (later₅.trans later₆).frames, viewFrame, viewType⟩
      index := ⟨indexHas.later later₆.frames, indexFrame, indexType⟩
      item := ⟨itemHas, itemFrame, itemType⟩ }

end Loop

namespace Account

variable {Z : Account} {s : Session} {items : List Local}

theorem transformAdvances {iterable : Expr} {body : Expr → Build Expr} (rules : Z.Compositional) (good : s.Good)
    (stands : Z.Stands s items) (operand : Z.Lowered s items iterable)
    (mapped : ∀ item s', s.Later s' → s'.Good → s.frames.table.size ≤ item.frame → s'.frames.Has item →
      Z.Stands s' (item :: items) → Advances (body item.read) s' fun r s'' => Z.Lowered s'' (item :: items) r) :
    Advances (Build.transform Z.root iterable body) s fun r s' => Z.Lowered s' items r := by
  unfold Build.transform Scope.new
  rw [bind_assoc]
  refine advancesBind (advancesChild good Z.root) ?_
  intro f s₁ later₁ good ⟨new, size, _⟩
  rw [pure_bind]
  have operand₁ := operand.later rules later₁
  refine advancesBind (Loop.newAdvances good operand₁.regular) ?_
  intro l s₂ later₂ good ⟨frame, a, site, opened⟩
  have later := later₁.trans later₂
  have stands₂ : Z.Stands s₂ (l.item :: items) := by
    refine { stands.later later with items := ?_ }
    intro x inside
    rcases List.mem_cons.1 inside with rfl | old
    · exact opened.item.1.frame
    · exact (stands.later later).items x old
  have outside : s.frames.table.size ≤ l.item.frame := by
    rw [opened.item.2.1, frame]
    exact later₁.frames.more
  refine advancesBind (mapped l.item s₂ later good outside opened.item.1 stands₂) ?_
  intro m s₃ later₃ good body
  have low : f < s₃.frames.table.size := by
    refine Nat.lt_of_lt_of_le ?_ (later₂.trans later₃).frames.more
    rw [new, size]
    exact Nat.lt_succ_self _
  unfold Scope.bind
  simp only [bind_assoc, pure_bind]
  refine advancesBind (advancesTemp good low "v" ((body.regular.withNull false).listOf.withNull false)) ?_
  intro out s₄ later₄ good ⟨outFrame, outType, outHas, _, _⟩
  have inner : l.frame < s₄.frames.table.size := by
    refine Nat.lt_of_lt_of_le ?_ (later₃.trans later₄).frames.more
    rw [← opened.item.2.1]
    exact opened.item.1.frame
  refine advancesBind (advancesTemp good inner "mapped" (body.regular.mono later₄.knows).boxed) ?_
  intro held s₅ later₅ good ⟨heldFrame, heldType, heldHas, _, _⟩
  have after := (later₃.trans later₄).trans later₅
  refine advancesPure good ?_
  have apart := stands.apart (Nat.le_of_eq new.symm)
  have beyond : s.frames.table.size ≤ l.frame := by
    rw [frame]
    exact later₁.frames.more
  have apart' := stands.apart beyond
  have collects : Loop.Collects site s₅.frames Z.root items
      { l with items := [.exec (held.write m), .exec (Loop.keep m.type held out)] } a m held out := by
    refine {
      access := opened.isOver ▸ opened.access
      list := opened.list
      items := rfl
      source := ⟨opened.source.1.later after.frames, opened.source.2.1, opened.isOver ▸ opened.source.2.2⟩
      view := ⟨opened.view.1.later after.frames, opened.view.2⟩
      index := ⟨opened.index.1.later after.frames, opened.index.2⟩
      item := ⟨opened.item.1.later after.frames, opened.item.2⟩
      kept := ⟨heldHas, heldFrame, heldType⟩
      result := ⟨outHas.later later₅.frames, ?_⟩
      outside := apart'.1
      others := apart'.2 }
    rw [outFrame, new, frame, size]
    exact Nat.ne_of_lt (Nat.lt_succ_self _)
  have source : Z.Lowered s₅ items l.iterable := by
    rw [opened.isOver]
    exact operand.later rules (later.trans after)
  rw [← outFrame] at apart
  have made := Loop.transformedWrites collects source (body.later rules (later₄.trans later₅)) outType apart.1 apart.2
  obtain ⟨_, _, _, _, _, _, _, none⟩ := l
  cases show none = [] from opened.items
  obtain ⟨_, _, _, _⟩ := out
  cases show _ = f from outFrame
  cases show _ = (Ty.list m.type.nonNull).nonNull from outType
  exact loweredOf made rfl fun _ _ shape => rules.transformed collects.access opened.item.2.2 shape

end Account

end QueryMachine
