import Mathlib.Data.List.Nodup
import QueryMachine.Proofs.Code.Relocation
import QueryMachine.Proofs.Expr.Frame

/-! Slots lent to locals and temporaries. A ledger keeps what emission has given out and not taken back; it always
covers the slots below the next free one, each of them once. -/
namespace QueryMachine.Lease

structure Range where
  first : Nat
  width : Nat

def Range.slots (r : Range) : List Nat := List.range' r.first r.width

inductive Ledger
  | outside (temps : List Range)
  | inside (frame : FrameId) (before : Nat) (locals temps : List Range) (outer : Ledger)

namespace Ledger

def ranges : Ledger → List Range
  | outside temps => temps
  | inside _ _ locals temps outer => outer.ranges ++ (locals ++ temps)

def lend (r : Range) : Ledger → Ledger
  | outside temps => outside (temps ++ [r])
  | inside f before locals temps outer => inside f before locals (temps ++ [r]) outer

def outer : Ledger → Ledger
  | outside temps => outside temps
  | inside _ _ _ _ outer => outer

/-- The frame that was entered last, and the next free slot before that. -/
def innermost? : Ledger → Option (FrameId × Nat)
  | outside _ => none
  | inside f before _ _ _ => some (f, before)

def locals? (f : FrameId) : Ledger → Option (List Range)
  | outside _ => none
  | inside g _ locals _ outer => if g = f then some locals else outer.locals? f

def range? (ledger : Ledger) (l : Local) : Option Range := ledger.locals? l.frame >>= fun locals => locals[l.index]?

end Ledger

/-- Frames, emission, and what it has lent. -/
structure State where
  frames : Frames
  emitter : Emitter
  ledger : Ledger

inductive Call
  | declare (f : FrameId) (name : String) (type : Ty)
  | enter (f : FrameId)
  | temp (width : Nat)
  | exit (f : FrameId)

def opened (f : FrameId) : Emit (List Range) := do
  Emit.enterFrame f
  ((← read).ownLocals f).mapM fun l => return ⟨← Emit.slotOf l, max l.type.width 1⟩

def State.emit {α : Type} (s : State) (x : Emit α) (book : α → Ledger) : Except Error State :=
  match x s.frames s.emitter with
  | (.ok v, e) => .ok { s with emitter := e, ledger := book v }
  | (.error err, _) => .error err

def Call.perform (s : State) : Call → Except Error State
  | declare f name type => .ok { s with frames := (s.frames.allocate f name type).2 }
  | enter f => s.emit (opened f) fun locals => .inside f s.emitter.nextSlot locals [] s.ledger
  | temp width => s.emit (Emit.newTemp width) fun slot => s.ledger.lend ⟨slot, max width 1⟩
  | exit f => s.emit (Emit.exitFrame f) fun _ => s.ledger.outer

def State.run (s : State) : List Call → Except Error State
  | [] => .ok s
  | call :: rest => do (← call.perform s).run rest

def start (frames : Frames) : State := ⟨frames, .empty, .outside []⟩

/-! ### Ranges side by side -/

inductive Tiles : Nat → List Range → Nat → Prop
  | nil (slot : Nat) : Tiles slot [] slot
  | cons {first width stop : Nat} {rest : List Range} (next : Tiles (first + width) rest stop) :
      Tiles first (⟨first, width⟩ :: rest) stop

variable {first middle stop width : Nat} {rs rs' : List Range}

theorem Tiles.append (left : Tiles first rs middle) (right : Tiles middle rs' stop) : Tiles first (rs ++ rs') stop := by
  induction left with
  | nil => exact right
  | cons _ ih => exact .cons (ih right)

theorem Tiles.snoc (tiles : Tiles first rs stop) (width : Nat) : Tiles first (rs ++ [⟨stop, width⟩]) (stop + width) :=
  tiles.append (.cons (.nil _))

theorem Tiles.le (tiles : Tiles first rs stop) : first ≤ stop := by
  induction tiles with
  | nil => exact Nat.le_refl _
  | cons _ ih => exact Nat.le_trans (Nat.le_add_right _ _) ih

theorem Tiles.slots (tiles : Tiles first rs stop) : rs.flatMap Range.slots = List.range' first (stop - first) := by
  induction tiles with
  | nil => simp
  | @cons first width stop rest next ih =>
    have le := next.le
    rw [List.flatMap_cons, ih, Range.slots, List.range'_append_1]
    have sum : width + (stop - (first + width)) = stop - first := by omega
    exact congrArg (fun n => List.range' first n) sum

def laid (next : Nat) : List Ty → List Range
  | [] => []
  | t :: ts => ⟨next, max t.width 1⟩ :: laid (next + max t.width 1) ts

theorem laidTiles (next : Nat) (ts : List Ty) : Tiles next (laid next ts) (Emit.layout next ts).2 := by
  induction ts generalizing next with
  | nil => exact .nil next
  | cons t ts ih => exact .cons (ih _)

theorem laidFirst (next : Nat) (ts : List Ty) : (laid next ts).map (·.first) = (Emit.layout next ts).1 := by
  induction ts generalizing next with
  | nil => rfl
  | cons t ts ih => exact congrArg (next :: ·) (ih _)

theorem laidLength (next : Nat) (ts : List Ty) : (laid next ts).length = ts.length := by
  induction ts generalizing next with
  | nil => rfl
  | cons t ts ih => exact congrArg (· + 1) (ih _)

theorem laidGet (next : Nat) (ts : List Ty) (i : Nat) : (laid next ts)[i]? =
    ts[i]?.map fun t => ⟨(Emit.layout next ts).1[i]?.getD 0, max t.width 1⟩ := by
  induction ts generalizing next i with
  | nil => rfl
  | cons t ts ih =>
    cases i with
    | zero => rfl
    | succ i => exact ih (next + max t.width 1) i

/-! ### What the calls do -/

variable {fs : Frames} {e : Emitter} {f : FrameId}

def entered (e : Emitter) (f : FrameId) (ts : List Ty) : Emitter :=
  { e with
    nextSlot := (Emit.layout e.nextSlot ts).2
    maxLocals := max e.maxLocals (Emit.layout e.nextSlot ts).2
    active := ⟨f, e.nextSlot, (Emit.layout e.nextSlot ts).1⟩ :: e.active }

theorem mapReads {α β : Type} {x : α → Emit β} {g : α → β} {items : List α}
    (each : ∀ a ∈ items, x a fs e = (.ok (g a), e)) : items.mapM x fs e = (.ok (items.map g), e) := by
  induction items with
  | nil => rfl
  | cons a rest ih =>
    rw [List.forall_mem_cons] at each
    rw [List.mapM_cons, Emit.bindOk each.1, Emit.bindOk (ih each.2)]
    rfl

theorem ownAt (fs : Frames) (f : FrameId) (i : Nat) :
    (fs.ownLocals f)[i]? = (fs.frame f).locals[i]?.map fun p => ⟨f, i, p.1, p.2⟩ := by
  unfold Frames.ownLocals
  rw [List.getElem?_map, List.getElem?_zipIdx, Option.map_map]
  simp only [Function.comp_def, Nat.zero_add]

theorem openedIs {ts : List Ty} (types : (fs.frame f).locals.map (·.2) = ts) (e : Emitter) :
    opened f fs e = (.ok (laid e.nextSlot ts), entered e f ts) := by
  have locals : ∀ l ∈ fs.ownLocals f, (do return ⟨← Emit.slotOf l, max l.type.width 1⟩ : Emit Range) fs (entered e f ts) =
      (.ok ⟨(Emit.layout e.nextSlot ts).1[l.index]?.getD 0, max l.type.width 1⟩, entered e f ts) := by
    intro l member
    obtain ⟨i, own⟩ := List.mem_iff_getElem?.1 member
    rw [ownAt] at own
    obtain ⟨p, here, rfl⟩ := Option.map_eq_some_iff.1 own
    have type : ts[i]? = some p.2 := by rw [← types, List.getElem?_map, here]; rfl
    obtain ⟨slot, at_, _⟩ := layoutGet type e.nextSlot
    have found : Emit.slotOf ⟨f, i, p.1, p.2⟩ fs (entered e f ts) = (.ok slot, entered e f ts) := by
      rw [Emit.slotIs]
      simp [entered, at_]
    rw [Emit.bindOk found, at_]
    rfl
  have same : (fs.ownLocals f).map (fun l => Range.mk ((Emit.layout e.nextSlot ts).1[l.index]?.getD 0) (max l.type.width 1)) =
      laid e.nextSlot ts := by
    refine List.ext_getElem? fun i => ?_
    rw [laidGet, ← types, List.getElem?_map, ownAt, List.getElem?_map, Option.map_map, Option.map_map]
    rfl
  rw [← same, ← mapReads locals, ← types]
  rfl

theorem enterIs (s : State) (f : FrameId) : (Call.enter f).perform s =
    .ok { s with
      emitter := entered s.emitter f ((s.frames.frame f).locals.map (·.2))
      ledger := .inside f s.emitter.nextSlot (laid s.emitter.nextSlot ((s.frames.frame f).locals.map (·.2))) [] s.ledger } := by
  rw [Call.perform, State.emit, openedIs rfl]

theorem tempIs (s : State) (width : Nat) : (Call.temp width).perform s =
    .ok { s with
      emitter := { s.emitter with
        nextSlot := s.emitter.nextSlot + max width 1
        maxLocals := max s.emitter.maxLocals (s.emitter.nextSlot + max width 1) }
      ledger := s.ledger.lend ⟨s.emitter.nextSlot, max width 1⟩ } := rfl

/-! ### The ledger and the emitter -/

inductive Accounts : Ledger → List ActiveFrame → Nat → Prop
  | outside {temps : List Range} {next : Nat} (tiles : Tiles 0 temps next) : Accounts (.outside temps) [] next
  | inside {f : FrameId} {before next : Nat} {locals temps : List Range} {outer : Ledger} {rest : List ActiveFrame}
    (tiles : Tiles before (locals ++ temps) next) (under : Accounts outer rest before) :
    Accounts (.inside f before locals temps outer) (⟨f, before, locals.map (·.first)⟩ :: rest) next

def Ledger.Grown (count : FrameId → Nat) : Ledger → Prop
  | .outside _ => True
  | .inside f _ locals _ outer =>
    locals.length ≤ count f ∧ outer.Grown fun g => if g = f then locals.length else count g

variable {ledger : Ledger} {active : List ActiveFrame} {next : Nat} {count count' : FrameId → Nat}

theorem Ledger.Grown.mono (grown : ledger.Grown count) (more : ∀ f, count f ≤ count' f) : ledger.Grown count' := by
  induction ledger generalizing count count' with
  | outside temps => trivial
  | inside f before locals temps outer ih =>
    refine ⟨Nat.le_trans grown.1 (more f), ih grown.2 fun g => ?_⟩
    split
    · exact Nat.le_refl _
    · exact more g

theorem Ledger.Grown.lend (grown : ledger.Grown count) (r : Range) : (ledger.lend r).Grown count := by
  cases ledger with
  | outside temps => trivial
  | inside f before locals temps outer => exact grown

theorem Accounts.lend (accounts : Accounts ledger active next) (width : Nat) :
    Accounts (ledger.lend ⟨next, width⟩) active (next + width) := by
  cases accounts with
  | outside tiles => exact .outside (tiles.snoc width)
  | inside tiles under =>
    refine .inside ?_ under
    rw [← List.append_assoc]
    exact tiles.snoc width

theorem Accounts.tiles (accounts : Accounts ledger active next) : Tiles 0 ledger.ranges next := by
  induction accounts with
  | outside tiles => exact tiles
  | inside tiles _ ih => exact ih.append tiles

theorem Accounts.inner {before : Nat} (accounts : Accounts ledger active next)
    (inner : ledger.innermost? = some (f, before)) : before ≤ next := by
  cases accounts with
  | outside => contradiction
  | inside tiles _ =>
    cases inner
    exact tiles.le

theorem Accounts.beyond {l : Local} (accounts : Accounts ledger active next) (grown : ledger.Grown count)
    (late : count l.frame ≤ l.index) :
    active.findSome? (fun a => if a.frame = l.frame then a.slots[l.index]? else none) = none := by
  induction accounts generalizing count with
  | outside => rfl
  | @inside f before next locals temps outer rest tiles under ih =>
    rw [List.findSome?_cons]
    by_cases own : f = l.frame
    · subst own
      have short : locals.length ≤ l.index := Nat.le_trans grown.1 late
      simp only [if_true, List.getElem?_map, List.getElem?_eq_none short, Option.map_none]
      exact ih grown.2 (by rw [if_pos rfl]; exact short)
    · simp only [if_neg own]
      exact ih grown.2 (by rw [if_neg (Ne.symm own)]; exact late)

theorem Accounts.found {l : Local} (accounts : Accounts ledger active next) (grown : ledger.Grown count) :
    active.findSome? (fun a => if a.frame = l.frame then a.slots[l.index]? else none) = (ledger.range? l).map (·.first) := by
  induction accounts generalizing count with
  | outside => rfl
  | @inside f before next locals temps outer rest tiles under ih =>
    rw [List.findSome?_cons]
    unfold Ledger.range? Ledger.locals?
    by_cases own : f = l.frame
    · simp only [if_pos own, List.getElem?_map]
      change _ = Option.map _ (locals[l.index]?)
      cases here : locals[l.index]? with
      | some r => rfl
      | none =>
        refine under.beyond grown.2 ?_
        rw [if_pos own.symm]
        exact List.getElem?_eq_none_iff.1 here
    · simp only [if_neg own]
      exact ih grown.2

structure Sound (s : State) : Prop where
  accounts : Accounts s.ledger s.emitter.active s.emitter.nextSlot
  room : s.emitter.nextSlot ≤ s.emitter.maxLocals
  grown : s.ledger.Grown fun f => (s.frames.frame f).locals.length

theorem startSound (frames : Frames) : Sound (start frames) := ⟨.outside (.nil 0), Nat.le_refl 0, trivial⟩

theorem declareLonger (fs : Frames) (f g : FrameId) (name : String) (t : Ty) :
    (fs.frame g).locals.length ≤ ((fs.allocate f name t).2.frame g).locals.length := by
  simp only [Frames.allocate]
  by_cases low : f < fs.table.size
  · rw [Frames.frameSet low]
    split
    · next same => simp [same]
    · exact Nat.le_refl _
  · have same : fs.table.setIfInBounds f { fs.frame f with locals := (fs.frame f).locals ++ [(name, t)] } = fs.table :=
      Array.setIfInBounds_eq_of_size_le (Nat.le_of_not_lt low)
    exact Nat.le_of_eq (congrArg (fun table => ((Frames.mk table).frame g).locals.length) same.symm)

theorem exitInner {before : Nat} (fs : Frames) (accounts : Accounts ledger e.active next)
    (inner : ledger.innermost? = some (f, before)) :
    ∃ rest, Emit.exitFrame f fs e = (.ok (), { e with active := rest, nextSlot := before }) ∧
      Accounts ledger.outer rest before := by
  rw [Emit.exitIs]
  generalize e.active = active at accounts
  cases accounts with
  | outside => contradiction
  | inside tiles under =>
    cases inner
    exact ⟨_, if_pos rfl, under⟩

theorem exitOther (fs : Frames) (accounts : Accounts ledger e.active next)
    (other : ∀ before, ledger.innermost? ≠ some (f, before)) :
    ∃ e', Emit.exitFrame f fs e = (.error (.of (.internal "local frames exited out of order")), e') := by
  rw [Emit.exitIs]
  generalize e.active = active at accounts
  cases accounts with
  | outside => exact ⟨_, rfl⟩
  | @inside g before _ _ _ _ _ tiles under =>
    refine ⟨_, if_neg ?_⟩
    rintro rfl
    exact other before rfl

theorem Ledger.Grown.outer (grown : ledger.Grown count) : ledger.outer.Grown count := by
  cases ledger with
  | outside temps => trivial
  | inside f before locals temps outer =>
    refine grown.2.mono fun g => ?_
    split
    · next same => exact same ▸ grown.1
    · exact Nat.le_refl _

variable {s s' : State} {call : Call}

theorem Sound.step (sound : Sound s) (ok : call.perform s = .ok s') : Sound s' := by
  cases call with
  | declare f name type =>
    cases ok
    exact ⟨sound.accounts, sound.room, sound.grown.mono fun g => declareLonger s.frames f g name type⟩
  | enter f =>
    rw [enterIs] at ok
    cases ok
    have length : (laid s.emitter.nextSlot ((s.frames.frame f).locals.map (·.2))).length = (s.frames.frame f).locals.length := by
      rw [laidLength, List.length_map]
    refine ⟨?_, Nat.le_max_right _ _, Nat.le_of_eq length, sound.grown.mono fun g => ?_⟩
    · have tiles := laidTiles s.emitter.nextSlot ((s.frames.frame f).locals.map (·.2))
      rw [← List.append_nil (laid _ _)] at tiles
      have opened := Accounts.inside (f := f) tiles sound.accounts
      rw [laidFirst] at opened
      exact opened
    · split
      · next same => exact Nat.le_of_eq (same ▸ length.symm)
      · exact Nat.le_refl _
  | temp width =>
    rw [tempIs] at ok
    cases ok
    exact ⟨sound.accounts.lend _, Nat.le_max_right _ _, sound.grown.lend _⟩
  | exit f =>
    rw [Call.perform, State.emit] at ok
    by_cases inner : ∃ before, s.ledger.innermost? = some (f, before)
    · obtain ⟨before, inner⟩ := inner
      obtain ⟨rest, left, under⟩ := exitInner s.frames sound.accounts inner
      rw [left] at ok
      cases ok
      exact ⟨under, Nat.le_trans (sound.accounts.inner inner) sound.room, sound.grown.outer⟩
    · obtain ⟨e, failed⟩ := exitOther s.frames sound.accounts fun before is => inner ⟨before, is⟩
      rw [failed] at ok
      contradiction

theorem Sound.run (sound : Sound s) {calls : List Call} (ok : s.run calls = .ok s') : Sound s' := by
  induction calls generalizing s with
  | nil =>
    cases ok
    exact sound
  | cons call rest ih =>
    obtain ⟨next, first, ok⟩ := exceptBind ok
    exact ih (sound.step first) ok

/-- After any calls up to the first error, all that is lent to the locals of active frames and to temporaries of frames that
are still active is apart and below the number of locals, `slotOf` answers a local of an active frame what it was given when
the frame was entered last, and no other. The frame that was entered last is left with the next free slot as it was before;
to leave any other is the only error. -/
theorem lentSlotsApart (frames : Frames) (calls : List Call) {s : State} (ran : (start frames).run calls = .ok s) :
    (s.ledger.ranges.Pairwise fun r r' => r.slots.Disjoint r'.slots) ∧
    (∀ r ∈ s.ledger.ranges, ∀ slot ∈ r.slots, slot < s.emitter.maxLocals) ∧
    (∀ l, Emit.slotOf l s.frames s.emitter = match s.ledger.range? l with
      | some r => (.ok r.first, s.emitter)
      | none => (.error (.of (.internal ("local '" ++ l.name ++ "' used outside its scope"))), s.emitter)) ∧
    (∀ f before, s.ledger.innermost? = some (f, before) →
      ∃ e, Emit.exitFrame f s.frames s.emitter = (.ok (), e) ∧ e.nextSlot = before) ∧
    (∀ f, (∀ before, s.ledger.innermost? ≠ some (f, before)) →
      ∃ e, Emit.exitFrame f s.frames s.emitter = (.error (.of (.internal "local frames exited out of order")), e)) ∧
    ∀ call : Call, (∀ f, call ≠ .exit f) → ∃ s', call.perform s = .ok s' := by
  have sound := (startSound frames).run ran
  have slots := sound.accounts.tiles.slots
  have unique : (s.ledger.ranges.flatMap Range.slots).Nodup := slots ▸ List.nodup_range'
  refine ⟨(List.nodup_flatMap.1 unique).2, ?_, ?_, ?_, ?_, ?_⟩
  · intro r lent slot inside
    have covered := List.mem_flatMap.2 ⟨r, lent, inside⟩
    rw [slots, List.mem_range'_1] at covered
    have room := sound.room
    omega
  · intro l
    rw [Emit.slotIs, sound.accounts.found sound.grown]
    cases s.ledger.range? l <;> rfl
  · intro f before inner
    obtain ⟨rest, left, _⟩ := exitInner s.frames sound.accounts inner
    exact ⟨_, left, rfl⟩
  · intro f other
    exact exitOther s.frames sound.accounts other
  · intro call leaves
    cases call with
    | declare f name type => exact ⟨_, rfl⟩
    | enter f => exact ⟨_, enterIs s f⟩
    | temp width => exact ⟨_, tempIs s width⟩
    | exit f => exact absurd rfl (leaves f)

def nested : Frames := ⟨#[⟨[], [("x", .prim .int64), ("y", .string)], 0⟩, ⟨[0], [("z", .prim .int32)], 0⟩]⟩

/-- The outer frame has been entered again in the inner one, and got one more local too late. -/
def reentered : State where
  frames := (nested.allocate 0 "late" .any).2
  emitter := { Emitter.empty with
    active := [⟨0, 7, [7, 9]⟩, ⟨1, 5, [5]⟩, ⟨0, 0, [0, 2]⟩]
    nextSlot := 12
    maxLocals := 12 }
  ledger := .inside 0 7 [⟨7, 2⟩, ⟨9, 1⟩] [⟨10, 2⟩] (.inside 1 5 [⟨5, 1⟩] [⟨6, 1⟩]
    (.inside 0 0 [⟨0, 2⟩, ⟨2, 1⟩] [⟨3, 2⟩] (.outside [])))

theorem reenteredApart :
    (start nested).run [.enter 0, .temp 2, .enter 1, .temp 1, .enter 0, .declare 0 "late" .any, .temp 2] = .ok reentered ∧
      reentered.ledger.ranges.Pairwise (fun r r' => r.slots.Disjoint r'.slots) ∧
      Emit.slotOf ⟨0, 0, "x", .prim .int64⟩ reentered.frames reentered.emitter = (.ok 7, reentered.emitter) ∧
      Emit.slotOf ⟨0, 2, "late", .any⟩ reentered.frames reentered.emitter =
        (.error (.of (.internal "local 'late' used outside its scope")), reentered.emitter) ∧
      ∃ e, Emit.exitFrame 0 reentered.frames reentered.emitter = (.ok (), e) ∧ e.nextSlot = 7 := by
  have ran : (start nested).run [.enter 0, .temp 2, .enter 1, .temp 1, .enter 0, .declare 0 "late" .any, .temp 2] =
      .ok reentered := by
    simp only [State.run, enterIs, tempIs]
    rfl
  obtain ⟨apart, _, slots, left, _⟩ := lentSlotsApart nested _ ran
  exact ⟨ran, apart, slots _, slots _, left 0 7 rfl⟩

end QueryMachine.Lease
