import QueryMachine.Proofs.Code.Growth
import QueryMachine.Proofs.Unit.Accessor

/-! Runs of string switches. The lookup by hash leads to the names of that hash, which are compared in the order of the
cases, so that a name leads to the first case that is the same in upper case, whatever collides. -/
namespace QueryMachine

open Emit (Out)
open Machine

namespace Emit

def targetOf (cases : List (String × Label)) (default : Label) : Option String → Label
  | some name => caseOf cases default name
  | none => default

end Emit

namespace Struct

/-! ### Emission -/

section Emission

variable {fs : Frames} {e₀ e : Emitter} {σ : Slots} {A : Asm} {hs : List Handler} {W : Label → Prop} {E : Error → Prop}
  {Q : Unit → Emitter → Prop}

theorem outBuckets {held default : Nat} {items : List ((Int32 × List (String × Label)) × Label)}
    (distinct : (items.map (·.2)).Nodup) (waits : ∀ x ∈ items, W x.2) (grown : e₀.Grown e σ A hs W)
    (next : ∀ e', e₀.Grown e' σ (A ++ items.flatMap fun x => .mark x.2 :: bucketCode held default x.1.2) hs
      (fun _ => False) → Q () e') :
    Out (items.forM fun x => do
      Emit.mark x.2
      x.1.2.forM fun c => Emit.ops [.const (.string c.1), .load held, .native .stringEquals, .ifZero .ne c.2]
      Emit.jump default) fs e E Q := by
  induction items generalizing e A W with
  | nil => exact next e (by simpa using grown.fewer fun _ none => none.elim)
  | cons x items ih =>
    obtain ⟨apart, distinct⟩ := List.nodup_cons.1 distinct
    simp only [Emit.forMCons, Emit.outBind]
    refine grown.outMark (waits x List.mem_cons_self) ?_
    intro e₁ grown
    refine grown.outForM (g := fun c : String × Label => [.op (.const (.string c.1)), .op (.load held),
      .op (.native .stringEquals), .op (.ifZero .ne c.2)]) (fun c _ e A Q grown next => grown.outOps next) ?_
    intro e₂ grown
    refine Emitter.Grown.outOp grown ?_
    intro e₃ grown
    refine ih distinct ?_ grown ?_
    · intro y inside
      refine ⟨waits y (List.mem_cons_of_mem x inside), fun same => apart ?_⟩
      exact List.mem_map.2 ⟨y, inside, same⟩
    · intro e₄ grown
      exact next e₄ (by simpa [bucketCode] using grown)

theorem outSwitching {cases : List (String × Label)} {default : Label} (grown : e₀.Grown e σ A hs W)
    (next : ∀ e' nonNull labels, labels.length = (Emit.buckets cases).length →
      e₀.Grown e' (σ.temp 1) (A ++ switchCode cases default σ.next nonNull labels) hs W → σ.next < e'.maxLocals → Q () e') :
    Out (Emit.stringSwitch cases default) fs e E Q := by
  unfold Emit.stringSwitch
  simp only [Emit.outBind]
  refine grown.outTemp ?_
  intro e₁ before high
  -- The slot is below the number of locals from here on, so the rest is followed from here.
  have grown := Emitter.Grown.start e₁
  refine grown.outLabel ?_
  intro nonNull e₂ _ grown
  refine grown.outOps ?_
  intro e₃ grown
  refine grown.outMark (.inl rfl) ?_
  intro e₄ grown
  refine grown.outOps ?_
  intro e₅ grown
  refine grown.outLabels (Emit.buckets cases).length ?_
  intro labels e₆ length distinct _ grown
  refine grown.outOp ?_
  intro e₇ grown
  have apart : (((Emit.buckets cases).zip labels).map (·.2)).Nodup := by rwa [List.map_snd_zip (Nat.le_of_eq length)]
  refine outBuckets apart ?_ grown ?_
  · exact fun x inside => .inl (List.of_mem_zip inside).2
  · intro e₈ grown
    have all := before.append grown
    rw [before.slots, List.append_nil] at all
    refine next e₈ nonNull labels length ?_ ?_
    · simpa [switchCode, hashes] using all
    · exact Nat.lt_of_lt_of_le (Nat.lt_of_lt_of_le (Nat.lt_succ_self _) high) grown.locals

end Emission

/-! ### Tables -/

theorem hashesAscend (cases : List (String × Label)) {labels : List Label}
    (length : labels.length = (Emit.buckets cases).length) : Ascending (hashes cases labels) := by
  have keys : (hashes cases labels).map (·.1) = (Emit.buckets cases).map (·.1) := by
    have firsts : ((Emit.buckets cases).zip labels).map (·.1) = Emit.buckets cases :=
      List.map_fst_zip (Nat.le_of_eq length.symm)
    conv_rhs => rw [← firsts]
    rw [hashes, List.map_map, List.map_map]
    rfl
  have ascends := (Emit.bucketsHold cases).1
  unfold Ascending at ascends ⊢
  rw [← List.pairwise_map (f := Prod.fst) (R := (· < ·))] at ascends ⊢
  exact keys ▸ ascends

theorem hashesLead (cases : List (String × Label)) {labels : List Label}
    (length : labels.length = (Emit.buckets cases).length) (hash : Int32) :
    (∃ x ∈ (Emit.buckets cases).zip labels, caseFor? (hashes cases labels) hash = some x.2 ∧
      x.1.2 = Emit.entriesOf hash cases) ∨
    caseFor? (hashes cases labels) hash = none ∧ Emit.entriesOf hash cases = [] := by
  obtain ⟨ascends, holds⟩ := Emit.bucketsHold cases
  rw [caseForIs (hashesAscend cases length)]
  cases found : (hashes cases labels).lookup hash with
  | some l =>
    obtain ⟨before, after, is, _⟩ := List.lookup_eq_some_iff.1 found
    have member : (hash, l) ∈ hashes cases labels := is ▸ List.mem_append_right _ List.mem_cons_self
    obtain ⟨x, inside, same⟩ := List.mem_map.1 member
    obtain ⟨rfl, rfl⟩ := Prod.mk.inj same
    refine .inl ⟨x, inside, rfl, ?_⟩
    rw [← holds, Emit.ascendingLookup ascends (List.of_mem_zip inside).1]
    rfl
  | none =>
    refine .inr ⟨rfl, ?_⟩
    rw [← holds]
    cases here : (Emit.buckets cases).lookup hash with
    | none => rfl
    | some entries =>
      obtain ⟨before, after, is, _⟩ := List.lookup_eq_some_iff.1 here
      have member : (hash, entries) ∈ Emit.buckets cases := is ▸ List.mem_append_right _ List.mem_cons_self
      rw [← List.map_fst_zip (Nat.le_of_eq length.symm)] at member
      obtain ⟨x, inside, same⟩ := List.mem_map.1 member
      have differs := List.lookup_eq_none_iff.1 found (x.1.1, x.2) (List.mem_map_of_mem inside)
      simp [same] at differs

/-! ### Runs -/

section Runs

variable {θ : Scene} {p q : Nat} {s : Stack} {ls : List Value} {w : World}

theorem spansSections {m : Method} {ι : Type} {items : List (ι × Label)} {f : ι → Asm}
    (spans : m.Spans p (items.flatMap fun x => .mark x.2 :: f x.1) q) {x : ι × Label} (inside : x ∈ items) :
    ∃ q, m.Spans (m.position x.2) (f x.1) q := by
  induction items generalizing p with
  | nil => contradiction
  | cons y items ih =>
    rw [List.flatMap_cons] at spans
    obtain ⟨mid, ⟨here, first⟩, rest⟩ := Method.spansAppend.1 spans
    rcases List.mem_cons.1 inside with rfl | later
    · exact ⟨mid, here ▸ first⟩
    · exact ih rest later

theorem bucketGoes {held default : Nat} {entries : List (String × Label)} {upper : String}
    (holds : ls[held]? = some (.string upper)) (spans : θ.method.Spans p (bucketCode held default entries) q) :
    θ.Reaches ⟨p, s, ls, w⟩
      ⟨θ.method.position (((entries.find? fun x => x.1 == upper).map (·.2)).getD default), s, ls, w⟩ := by
  induction entries generalizing p with
  | nil => exact Scene.jumps spans.1 rfl
  | cons x entries ih =>
    obtain ⟨constant, load, compare, leave, rest⟩ := spans
    have loaded : core w.heap θ.method (.load held) (.string x.1 :: s) ls =
        some (.ok (.next (.string upper :: .string x.1 :: s) ls)) := by
      simp [core, holds]
    refine (Scene.next constant rfl).trans ((Scene.next load loaded).trans ((Scene.calls compare rfl).trans ?_))
    change θ.Reaches ⟨p + 3, bit (x.1 == upper) :: s, ls, w⟩ _
    rw [List.find?_cons]
    cases x.1 == upper with
    | true => exact Scene.jumps leave rfl
    | false => exact (Scene.next leave rfl).trans (ih rest)

theorem switchGoes {cases : List (String × Label)} {default held nonNull : Nat} {labels : List Label} {name : String}
    (length : labels.length = (Emit.buckets cases).length) (low : held < ls.length)
    (spans : θ.method.Spans p (switchCode cases default held nonNull labels) q) :
    θ.Reaches ⟨p, .string name :: s, ls, w⟩ ⟨θ.method.position (Emit.caseOf cases default name), s,
      ls.set held (.string (Text.Uppercase.text name)), w⟩ := by
  obtain ⟨mid, head, rest⟩ := Method.spansAppend.1 spans
  obtain ⟨dup, test, _, _, mark, upper, again, store, hash, look, _⟩ := head
  refine (Scene.next dup rfl).trans ((Scene.jumps test rfl).trans ?_)
  rw [mark]
  refine (Scene.calls upper rfl).trans ((Scene.next again rfl).trans ((Scene.next store rfl).trans ?_))
  refine (Scene.calls hash rfl).trans ((Scene.jumps look rfl).trans ?_)
  have holds : (ls.set held (.string (Text.Uppercase.text name)))[held]? = some (.string (Text.Uppercase.text name)) := by
    rw [List.getElem?_set_self low]
  rw [← Emit.entriesFind]
  rcases hashesLead cases length (Text.Units.hash (Text.Uppercase.text name)) with ⟨x, inside, leads, same⟩ | ⟨missing, none⟩
  · rw [leads]
    obtain ⟨_, bucket⟩ := spansSections (f := fun y : Int32 × List (String × Label) => bucketCode held default y.2) rest inside
    rw [same] at bucket
    exact bucketGoes holds bucket
  · rw [missing, none]
    exact .refl _

theorem switchSkips {cases : List (String × Label)} {default held nonNull : Nat} {labels : List Label}
    (spans : θ.method.Spans p (switchCode cases default held nonNull labels) q) :
    θ.Reaches ⟨p, .null :: s, ls, w⟩ ⟨θ.method.position default, s, ls, w⟩ := by
  obtain ⟨dup, test, drop, leave, _⟩ := spans
  exact (Scene.next dup rfl).trans ((Scene.next test rfl).trans ((Scene.next drop rfl).trans (Scene.jumps leave rfl)))

end Runs

end Struct

namespace Emit

/-- A string switch takes the string or null from the stack and goes to the label for it; the rest of the stack, the world
and every local but the temporary of the switch stay as they are. -/
theorem stringSwitchDispatches (cases : List (String × Label)) (default : Label) (fs : Frames) (e : Emitter) :
    ∃ e', stringSwitch cases default fs e = (.ok (), e') ∧ e'.active = e.active ∧ e'.nextSlot = e.nextSlot + 1 ∧
      ∀ θ : Scene, θ.method.Continues e' → ∀ (text : Option String) (s : Stack) (ls : List Value) (w : World),
        θ.method.maxLocals ≤ ls.length → ∃ ls',
          θ.Reaches ⟨e.ops.size, text.elim .null .string :: s, ls, w⟩
            ⟨θ.method.position (targetOf cases default text), s, ls', w⟩ ∧
          ls'.length = ls.length ∧ ∀ i, i ≠ e.nextSlot → ls'[i]? = ls[i]? := by
  have out : Out (stringSwitch cases default) fs e (fun _ => False) fun _ e' => ∃ nonNull labels,
      labels.length = (buckets cases).length ∧
      e.Grown e' (e.slots.temp 1) (Struct.switchCode cases default e.nextSlot nonNull labels) [] (fun _ => False) ∧
      e.nextSlot < e'.maxLocals :=
    Struct.outSwitching (Emitter.Grown.start e) fun e' nonNull labels length grown high => ⟨nonNull, labels, length, grown, high⟩
  unfold Out at out
  rcases answer : stringSwitch cases default fs e with ⟨err | _, e'⟩
  · rw [answer] at out
    exact out.elim
  rw [answer] at out
  obtain ⟨nonNull, labels, length, grown, high⟩ := out
  refine ⟨e', rfl, congrArg Slots.active grown.slots, congrArg Slots.next grown.slots, ?_⟩
  intro θ goes text s ls w room
  have spans := grown.spans goes
  have low : e.nextSlot < ls.length := Nat.lt_of_lt_of_le high (Nat.le_trans goes.locals room)
  cases text with
  | none => exact ⟨ls, Struct.switchSkips spans, rfl, fun _ _ => rfl⟩
  | some name =>
    refine ⟨_, Struct.switchGoes length low spans, List.length_set, ?_⟩
    exact fun i other => List.getElem?_set_ne (Ne.symm other)

def labelled : Emitter := { Emitter.empty with labels := #[none, none, none] }

/-- The second of two names of one hash is found, with something under the name on the stack. -/
theorem collidingNameFound :
    Text.Units.hash (Text.Uppercase.text "b0") = Text.Units.hash (Text.Uppercase.text "ao") ∧
    ∃ e' m ls', stringSwitch [("b0", 0), ("ao", 1)] 2 .empty labelled = (.ok (), e') ∧ m.Continues e' ∧
      m.position 1 = 101 ∧
      Scene.Reaches ⟨.empty, m, 1⟩ ⟨0, [.string "Ao", .null], [.null], .empty .empty⟩
        ⟨101, [.null], ls', .empty .empty⟩ := by
  refine ⟨by decide +kernel, ?_⟩
  obtain ⟨e', is, _, _, goes⟩ := stringSwitchDispatches [("b0", 0), ("ao", 1)] 2 .empty labelled
  have same : e' = (stringSwitch [("b0", 0), ("ao", 1)] 2 .empty labelled).2 := by rw [is]
  have locals : e'.maxLocals = 1 := by
    rw [same]
    decide +kernel
  have second : e'.labels[1]? = some none := by
    rw [same]
    decide +kernel
  -- What is not bound by the switch itself comes later.
  let m : Method := ⟨⟨"C", "m", [], .void, true⟩, e'.ops, e'.labels.mapIdx fun l p => p.getD (100 + l), e'.handlers, e'.maxLocals, 0⟩
  have continues : m.Continues e' := by
    refine ⟨List.prefix_refl _, ?_, List.prefix_refl _, Nat.le_refl _⟩
    intro l p bound
    simp [m, Method.position, Array.getD_eq_getD_getElem?, bound]
  have at_ : m.position 1 = 101 := by simp [m, Method.position, Array.getD_eq_getD_getElem?, second]
  have target : targetOf [("b0", 0), ("ao", 1)] 2 (some "Ao") = 1 := by decide +kernel
  obtain ⟨ls', reaches, _⟩ := goes ⟨.empty, m, 1⟩ continues (some "Ao") [.null] [.null] (.empty .empty)
    (Nat.le_of_eq locals)
  rw [target, at_] at reaches
  exact ⟨e', m, ls', is, continues, at_, reaches⟩

end Emit

end QueryMachine
