import Mathlib.Data.List.Induction
import QueryMachine.Proofs.Value.Nesting

/-! Equality of data is an equivalence, and equal data hash alike; so a map has one entry for each class of equal keys,
with the value that was put last. Floats are left out: not-a-number differs from itself. -/
namespace QueryMachine

theorem matchedBack {α β : Type} {M : α → β → Prop} {xs : List α} {ys : List β} (length : xs.length = ys.length)
    (apart : xs.Pairwise fun x x' => ∀ y ∈ ys, M x y → ¬ M x' y) (each : ∀ x ∈ xs, ∃ y ∈ ys, M x y) :
    ∀ y ∈ ys, ∃ x ∈ xs, M x y := by
  induction xs generalizing ys with
  | nil =>
    rw [List.length_eq_zero_iff.1 length.symm]
    nofun
  | cons x xs ih =>
    rw [List.pairwise_cons] at apart
    rw [List.forall_mem_cons] at each
    obtain ⟨⟨y, member, matched⟩, others⟩ := each
    obtain ⟨before, after, rfl⟩ := List.append_of_mem member
    have rest : ∀ z ∈ before ++ after, ∃ x' ∈ xs, M x' z := by
      refine ih (by simp at length ⊢; omega) ?_ ?_
      · refine apart.2.imp fun differ z inside => differ z ?_
        rcases List.mem_append.1 inside with left | right
        · exact List.mem_append_left _ left
        · exact List.mem_append_right _ (List.mem_cons_of_mem _ right)
      · intro x' other
        obtain ⟨z, inside, pair⟩ := others x' other
        have free : z ≠ y := by
          rintro rfl
          exact apart.1 x' other z inside matched pair
        refine ⟨z, ?_, pair⟩
        simp only [List.mem_append, List.mem_cons] at inside ⊢
        rcases inside with left | same | right
        · exact .inl left
        · exact absurd same free
        · exact .inr right
    intro z inside
    simp only [List.mem_append, List.mem_cons] at inside rest
    by_cases same : z = y
    · exact ⟨x, List.mem_cons_self, same ▸ matched⟩
    · obtain ⟨x', other, pair⟩ := rest z (by tauto)
      exact ⟨x', List.mem_cons_of_mem _ other, pair⟩

inductive Exact where
  | nothing
  | integer (v : Int64)
  | boolean (v : Bool)
  | string (s : String)
  | bytes (b : List UInt8)
  | timestamp (t : Timestamp)
  | enum (e : EnumValue)
  deriving DecidableEq

def Value.exact? : Value → Option Exact
  | .null => some .nothing
  | .boxed (.boolean b) => some (.boolean b)
  | .string s => some (.string s)
  | .bytes b => some (.bytes b)
  | .timestamp t => some (.timestamp t)
  | .enum e => some (.enum e)
  | v => v.integer?.map .integer

namespace Heap

variable {h g : Heap} {u v w p k : Value} {x y : Exact} {a : Address} {n : Nat}

/-- Finite data: exact values, and lists, maps and records of data. The keys of a map differ from each other, as do
the names of a record. -/
inductive Data (h : Heap) : Value → Prop
  | exact {v : Value} {x : Exact} (is : v.exact? = some x) : Data h v
  | list {a : Address} (items : ∀ v ∈ (h.list a).toList, Data h v) : Data h (.list a)
  | map {a : Address} (apart : (h.map a).Pairwise fun e f => h.equals e.1 f.1 = false)
    (keys : ∀ e ∈ h.map a, Data h e.1) (values : ∀ e ∈ h.map a, Data h e.2) : Data h (.map a)
  | record {a : Address} (apart : (h.record a).entries.Pairwise fun e f => Record.fold e.1 ≠ Record.fold f.1)
    (values : ∀ e ∈ (h.record a).entries, Data h e.2) : Data h (.record a)

theorem exactParts (is : v.exact? = some x) : h.parts v = [] := by
  cases v <;> first | rfl | contradiction

theorem Data.acyclic (data : h.Data v) : h.Acyclic v := by
  induction data with
  | exact is =>
    refine .of ?_
    rw [exactParts is]
    nofun
  | list _ ih => exact .of ih
  | map _ _ _ keys values =>
    refine .of fun p inside => ?_
    rcases List.mem_append.1 inside with key | value
    · obtain ⟨e, member, rfl⟩ := List.mem_map.1 key
      exact keys e member
    · obtain ⟨e, member, rfl⟩ := List.mem_map.1 value
      exact values e member
  | record _ _ values =>
    refine .of fun p inside => ?_
    obtain ⟨e, member, rfl⟩ := List.mem_map.1 inside
    exact values e member

/-! ### Exact values -/

theorem toInt64Iff {s t : Int32} : s.toInt64 = t.toInt64 ↔ s = t := by
  refine ⟨fun same => ?_, congrArg _⟩
  have values := congrArg Int64.toInt same
  rw [Int32.toInt_toInt64, Int32.toInt_toInt64] at values
  exact Int32.toInt.inj values

theorem exactEqual {inner : Value → Value → Bool} (left : v.exact? = some x) (right : w.exact? = some y) :
    h.equalBy inner v w = true ↔ x = y := by
  cases v with
  | boxed b =>
    cases w with
    | boxed c =>
      cases b <;> cases c <;> first
        | contradiction
        | cases left; cases right
          simp [equalBy, equalNumbers, Value.integer?, Boxed.integer?, Value.number?, Boxed.number?]
    | _ =>
      cases b <;> first
        | contradiction
        | cases left; cases right
          simp [equalBy, equalNumbers, Value.integer?, Boxed.integer?, Value.number?, Boxed.number?]
  | _ =>
    cases w with
    | boxed c =>
      cases c <;> first
        | contradiction
        | cases left; cases right
          simp [equalBy, equalNumbers, Value.integer?, Boxed.integer?, Value.number?, Boxed.number?]
    | _ =>
      first
        | contradiction
        | cases left; cases right
          simp [equalBy, equalNumbers, Value.integer?, Value.number?, toInt64Iff]

theorem exactHash (left : v.exact? = some x) (right : w.exact? = some x) : h.hashKey v = h.hashKey w := by
  have of : ∀ {v : Value}, v.exact? = some x → h.hashKey v = (match x with
      | .nothing => HashKey.nothing
      | .integer i => .integer i
      | .boolean b => .boolean b
      | .string s => .string s
      | .bytes _ => .other "Bytes"
      | .timestamp _ => .other "Timestamp"
      | .enum e => .enum e) := by
    intro v is
    cases v with
    | boxed b => cases b <;> first | contradiction | (cases is; rfl)
    | _ => first | contradiction | (cases is; rfl)
  rw [of left, of right]

theorem exactApart (h : Heap) (inner : Value → Value → Bool) (is : v.exact? = some x) (a : Address) :
    (∀ w ∈ [Value.list a, .map a, .record a], h.equalBy inner v w = false) ∧
      ∀ w ∈ [Value.list a, .map a, .record a], h.equalBy inner w v = false := by
  simp only [List.forall_mem_cons]
  cases v with
  | boxed b => cases b <;> exact ⟨⟨rfl, rfl, rfl, nofun⟩, rfl, rfl, rfl, nofun⟩
  | _ => first | contradiction | exact ⟨⟨rfl, rfl, rfl, nofun⟩, rfl, rfl, rfl, nofun⟩

/-! ### What equality says of data -/

structure Shallow (h : Heap) (n : Nat) (v : Value) : Prop where
  data : h.Data v
  below : ∃ m < n, h.Within m v

theorem Shallow.part (deep : h.Shallow (n + 1) v) (data : h.Data p) (inside : p ∈ h.parts v) : h.Shallow n p := by
  obtain ⟨_, m, less, within⟩ := deep
  cases m with
  | zero =>
    rw [show h.parts v = [] from within] at inside
    contradiction
  | succ m => exact ⟨data, m, Nat.lt_of_succ_lt_succ less, within p inside⟩

structure Equates (h : Heap) (n : Nat) : Prop where
  symm : ∀ {v w}, h.Shallow n v → h.Shallow n w → h.equals v w = true → h.equals w v = true
  trans : ∀ {u v w}, h.Shallow n u → h.Shallow n v → h.Shallow n w →
    h.equals u v = true → h.equals v w = true → h.equals u w = true
  hash : ∀ {v w}, h.Shallow n v → h.Shallow n w → h.equals v w = true → h.hashKey v = h.hashKey w

theorem equalsSelf (data : h.Data v) : h.equals v v = true := by
  rw [data.acyclic.equalsIs]
  cases data with
  | exact is => exact (exactEqual is is).2 rfl
  | list => rw [equalByLists, beq_self_eq_true, Bool.true_or]
  | map => rw [equalByMaps, beq_self_eq_true, Bool.true_or]
  | record => rw [equalByRecords, beq_self_eq_true, Bool.true_or]

theorem pairwiseEither {α : Type} {P : α → α → Prop} {xs : List α} {e f : α} (apart : xs.Pairwise P) (left : e ∈ xs)
    (right : f ∈ xs) : e = f ∨ P e f ∨ P f e := by
  induction apart with
  | nil => contradiction
  | @cons x xs first _ ih =>
    rcases List.mem_cons.1 left with rfl | behind
    · rcases List.mem_cons.1 right with rfl | behind
      · exact .inl rfl
      · exact .inr (.inl (first f behind))
    · rcases List.mem_cons.1 right with rfl | inside
      · exact .inr (.inr (first e behind))
      · exact ih behind inside

structure Table (h : Heap) (n : Nat) (entries : List (Value × Value)) : Prop where
  apart : entries.Pairwise fun e f => h.equals e.1 f.1 = false
  keys : ∀ e ∈ entries, h.Shallow n e.1

section Equates

variable (equates : h.Equates n) {entries : List (Value × Value)} {e f : Value × Value}
include equates

theorem Table.unique (table : h.Table n entries) (left : e ∈ entries) (right : f ∈ entries)
    (same : h.equals e.1 f.1 = true) : e = f := by
  rcases pairwiseEither table.apart left right with rfl | differ | differ
  · rfl
  · rw [same] at differ
    contradiction
  · rw [equates.symm (table.keys e left) (table.keys f right) same] at differ
    contradiction

theorem Table.entryIff (table : h.Table n entries) (key : h.Shallow n k) :
    h.entry? h.equals entries k = some e ↔ e ∈ entries ∧ h.equals k e.1 = true := by
  constructor
  · intro found
    have hit := List.find?_some found
    simp only [Bool.and_eq_true] at hit
    exact ⟨List.mem_of_find?_eq_some found, hit.2⟩
  · rintro ⟨member, same⟩
    have hit : (decide (h.hashKey e.1 = h.hashKey k) && h.equals k e.1) = true := by
      rw [same, Bool.and_true, decide_eq_true_eq]
      exact (equates.hash key (table.keys e member) same).symm
    cases found : h.entry? h.equals entries k with
    | none =>
      have missed := List.find?_eq_none.1 found e member
      exact absurd hit missed
    | some f =>
      have other := List.find?_some found
      simp only [Bool.and_eq_true] at other
      have there := List.mem_of_find?_eq_some found
      rw [table.unique equates member there ?_]
      exact equates.trans (table.keys e member) key (table.keys f there)
        (equates.symm key (table.keys e member) same) other.2

end Equates

inductive Alike (h : Heap) : Value → Value → Prop
  | exact {v w : Value} {x : Exact} (left : v.exact? = some x) (right : w.exact? = some x) : Alike h v w
  | list {a b : Address}
    (items : List.Forall₂ (fun v w => h.equals v w = true) (h.list a).toList (h.list b).toList) :
    Alike h (.list a) (.list b)
  | map {a b : Address} (size : (h.map a).length = (h.map b).length)
    (each : ∀ e ∈ h.map a, ∃ f ∈ h.map b, h.equals e.1 f.1 = true ∧ h.equals e.2 f.2 = true) :
    Alike h (.map a) (.map b)
  | record {a b : Address} (size : (h.record a).entries.length = (h.record b).entries.length)
    (each : ∀ e ∈ (h.record a).entries, ∃ f ∈ (h.record b).entries,
      Record.fold e.1 = Record.fold f.1 ∧ h.equals e.2 f.2 = true) :
    Alike h (.record a) (.record b)

theorem Alike.hash (alike : h.Alike v w) : h.hashKey v = h.hashKey w := by
  cases alike with
  | exact left right => exact exactHash left right
  | _ => rfl

theorem Shallow.item (deep : h.Shallow (n + 1) (.list a)) (member : v ∈ (h.list a).toList) : h.Shallow n v := by
  cases deep.data with
  | exact is => contradiction
  | list items => exact deep.part (items v member) member

theorem Shallow.table (deep : h.Shallow (n + 1) (.map a)) : h.Table n (h.map a) := by
  cases deep.data with
  | exact is => contradiction
  | map apart keys _ =>
    refine ⟨apart, fun e member => deep.part (keys e member) ?_⟩
    exact List.mem_append_left _ (List.mem_map_of_mem member)

theorem Shallow.entry {e : Value × Value} (deep : h.Shallow (n + 1) (.map a)) (member : e ∈ h.map a) :
    h.Shallow n e.2 := by
  cases deep.data with
  | exact is => contradiction
  | map _ _ values =>
    exact deep.part (values e member) (List.mem_append_right _ (List.mem_map_of_mem member))

theorem Shallow.field {e : String × Value} (deep : h.Shallow (n + 1) (.record a)) (member : e ∈ (h.record a).entries) :
    h.Shallow n e.2 := by
  cases deep.data with
  | exact is => contradiction
  | record _ values => exact deep.part (values e member) (List.mem_map_of_mem member)

theorem Shallow.names (deep : h.Shallow n (.record a)) :
    (h.record a).entries.Pairwise fun e f => Record.fold e.1 ≠ Record.fold f.1 := by
  cases deep.data with
  | exact is => contradiction
  | record apart _ => exact apart

theorem fieldIff {α : Type} {r : Record α} {name : String} {value : α}
    (apart : r.entries.Pairwise fun e f => Record.fold e.1 ≠ Record.fold f.1) :
    r.get? name = some value ↔ ∃ e ∈ r.entries, Record.fold name = Record.fold e.1 ∧ e.2 = value := by
  unfold Record.get?
  constructor
  · intro field
    obtain ⟨e, found, is⟩ := Option.map_eq_some_iff.1 field
    have hit := List.find?_some found
    exact ⟨e, List.mem_of_find?_eq_some found, (beq_iff_eq.1 hit).symm, is⟩
  · rintro ⟨e, member, matching, rfl⟩
    cases found : r.entries.find? (Record.matching name) with
    | none => exact absurd (beq_iff_eq.2 matching.symm) (List.find?_eq_none.1 found e member)
    | some f =>
      have hit := List.find?_some found
      have folded : Record.fold f.1 = Record.fold name := beq_iff_eq.1 hit
      rcases pairwiseEither apart member (List.mem_of_find?_eq_some found) with rfl | differ | differ
      · rfl
      · exact absurd (matching.symm.trans folded.symm) differ
      · exact absurd (folded.trans matching) differ

theorem listsAlike {b : Address} (left : h.Data (.list a)) :
    h.equals (.list a) (.list b) = true ↔
      List.Forall₂ (fun v w => h.equals v w = true) (h.list a).toList (h.list b).toList := by
  rw [left.acyclic.equalsIs, equalByLists]
  simp only [Bool.or_eq_true, Bool.and_eq_true, beq_iff_eq, List.all_eq_true, List.forall₂_iff_zip, Array.length_toList]
  constructor
  · rintro (rfl | equal)
    · cases left with
      | exact is => contradiction
      | list items =>
        refine ⟨rfl, fun {v w} member => ?_⟩
        obtain ⟨i, _, at_⟩ := List.getElem_of_mem member
        rw [List.getElem_zip, Prod.mk.injEq] at at_
        rw [← at_.1, ← at_.2]
        exact equalsSelf (items _ (List.getElem_mem _))
    · exact ⟨equal.1, fun {v w} member => equal.2 (v, w) member⟩
  · exact fun equal => .inr ⟨equal.1, fun e member => equal.2 member⟩

section Equates

variable (equates : h.Equates n) {b : Address}
include equates

theorem mapsAlike (left : h.Shallow (n + 1) (.map a)) (right : h.Shallow (n + 1) (.map b)) :
    h.equals (.map a) (.map b) = true ↔ (h.map a).length = (h.map b).length ∧
      ∀ e ∈ h.map a, ∃ f ∈ h.map b, h.equals e.1 f.1 = true ∧ h.equals e.2 f.2 = true := by
  rw [left.data.acyclic.equalsIs, equalByMaps]
  simp only [Bool.or_eq_true, Bool.and_eq_true, beq_iff_eq, List.all_eq_true, Option.any_eq_true]
  constructor
  · rintro (rfl | equal)
    · refine ⟨rfl, fun e member => ⟨e, member, ?_, ?_⟩⟩
      · exact equalsSelf (left.table.keys e member).data
      · exact equalsSelf (left.entry member).data
    · refine ⟨equal.1, fun e member => ?_⟩
      obtain ⟨f, found, same⟩ := equal.2 e member
      obtain ⟨there, key⟩ := (right.table.entryIff equates (left.table.keys e member)).1 found
      exact ⟨f, there, key, same⟩
  · refine fun equal => .inr ⟨equal.1, fun e member => ?_⟩
    obtain ⟨f, there, key, same⟩ := equal.2 e member
    exact ⟨f, (right.table.entryIff equates (left.table.keys e member)).2 ⟨there, key⟩, same⟩

omit equates in
theorem recordsAlike (left : h.Shallow (n + 1) (.record a)) (right : h.Shallow (n + 1) (.record b)) :
    h.equals (.record a) (.record b) = true ↔ (h.record a).entries.length = (h.record b).entries.length ∧
      ∀ e ∈ (h.record a).entries, ∃ f ∈ (h.record b).entries,
        Record.fold e.1 = Record.fold f.1 ∧ h.equals e.2 f.2 = true := by
  rw [left.data.acyclic.equalsIs, equalByRecords]
  simp only [Bool.or_eq_true, Bool.and_eq_true, beq_iff_eq, List.all_eq_true, Option.any_eq_true, Record.size]
  constructor
  · rintro (rfl | equal)
    · exact ⟨rfl, fun e member => ⟨e, member, rfl, equalsSelf (left.field member).data⟩⟩
    · refine ⟨equal.1, fun e member => ?_⟩
      obtain ⟨value, found, same⟩ := equal.2 e member
      obtain ⟨f, there, matching, rfl⟩ := (fieldIff right.names).1 found
      exact ⟨f, there, matching, same⟩
  · refine fun equal => .inr ⟨equal.1, fun e member => ?_⟩
    obtain ⟨f, there, matching, same⟩ := equal.2 e member
    exact ⟨f.2, (fieldIff right.names).2 ⟨f, there, matching, rfl⟩, same⟩

theorem equalsIff (left : h.Shallow (n + 1) v) (right : h.Shallow (n + 1) w) :
    h.equals v w = true ↔ h.Alike v w := by
  have unfolded := left.data.acyclic.equalsIs w
  constructor
  · intro equal
    rw [unfolded] at equal
    have apart := fun {v x} is a => exactApart (v := v) (x := x) h h.equals is a
    simp only [List.forall_mem_cons] at apart
    cases left.data with
    | exact isLeft =>
      cases right.data with
      | exact isRight =>
        cases (exactEqual isLeft isRight).1 equal
        exact .exact isLeft isRight
      | list => exact absurd equal (Bool.eq_false_iff.1 (apart isLeft _).1.1)
      | map => exact absurd equal (Bool.eq_false_iff.1 (apart isLeft _).1.2.1)
      | record => exact absurd equal (Bool.eq_false_iff.1 (apart isLeft _).1.2.2.1)
    | list =>
      cases right.data with
      | exact isRight => exact absurd equal (Bool.eq_false_iff.1 (apart isRight _).2.1)
      | list => exact .list ((listsAlike left.data).1 (unfolded.trans equal))
      | _ => contradiction
    | map =>
      cases right.data with
      | exact isRight => exact absurd equal (Bool.eq_false_iff.1 (apart isRight _).2.2.1)
      | map =>
        obtain ⟨size, each⟩ := (mapsAlike equates left right).1 (unfolded.trans equal)
        exact .map size each
      | _ => contradiction
    | record =>
      cases right.data with
      | exact isRight => exact absurd equal (Bool.eq_false_iff.1 (apart isRight _).2.2.2.1)
      | record =>
        obtain ⟨size, each⟩ := (recordsAlike left right).1 (unfolded.trans equal)
        exact .record size each
      | _ => contradiction
  · intro alike
    cases alike with
    | exact isLeft isRight => exact unfolded.trans ((exactEqual isLeft isRight).2 rfl)
    | list items => exact (listsAlike left.data).2 items
    | map size each => exact (mapsAlike equates left right).2 ⟨size, each⟩
    | record size each => exact (recordsAlike left right).2 ⟨size, each⟩

theorem Alike.symm (alike : h.Alike v w) (left : h.Shallow (n + 1) v) (right : h.Shallow (n + 1) w) : h.Alike w v := by
  cases alike with
  | exact isLeft isRight => exact .exact isRight isLeft
  | list items =>
    refine .list (List.forall₂_iff_get.2 ⟨items.length_eq.symm, fun i i2 i1 => ?_⟩)
    exact equates.symm (left.item (List.getElem_mem i1)) (right.item (List.getElem_mem i2)) (items.get i1 i2)
  | map size each =>
    -- Two entries of one side cannot be paired with the same one of the other: their keys would be equal.
    have back := matchedBack size ?_ each
    · refine .map size.symm fun f there => ?_
      obtain ⟨e, member, key, value⟩ := back f there
      exact ⟨e, member, equates.symm (left.table.keys e member) (right.table.keys f there) key,
        equates.symm (left.entry member) (right.entry there) value⟩
    · refine left.table.apart.imp_of_mem ?_
      intro e e' member member' differ f there pair pair'
      have keys := right.table.keys f there
      have same := equates.trans (left.table.keys e member) keys (left.table.keys e' member') pair.1
        (equates.symm (left.table.keys e' member') keys pair'.1)
      rw [same] at differ
      contradiction
  | record size each =>
    have back := matchedBack size ?_ each
    · refine .record size.symm fun f there => ?_
      obtain ⟨e, member, name, value⟩ := back f there
      exact ⟨e, member, name.symm, equates.symm (left.field member) (right.field there) value⟩
    · refine left.names.imp ?_
      intro e e' differ f _ pair pair'
      exact differ (pair.1.trans pair'.1.symm)

theorem Alike.trans (first : h.Alike u v) (second : h.Alike v w) (left : h.Shallow (n + 1) u)
    (middle : h.Shallow (n + 1) v) (right : h.Shallow (n + 1) w) : h.Alike u w := by
  cases first with
  | exact isLeft isMiddle =>
    cases second with
    | exact isMiddle' isRight =>
      rw [isMiddle] at isMiddle'
      cases isMiddle'
      exact .exact isLeft isRight
    | _ => contradiction
  | @list a b items =>
    cases second with
    | exact is => contradiction
    | @list _ c items' =>
      refine .list (List.forall₂_iff_get.2 ⟨items.length_eq.trans items'.length_eq, fun i i1 i3 => ?_⟩)
      have i2 : i < (h.list b).toList.length := items.length_eq ▸ i1
      exact equates.trans (left.item (List.getElem_mem i1)) (middle.item (List.getElem_mem i2))
        (right.item (List.getElem_mem i3)) (items.get i1 i2) (items'.get i2 i3)
  | map size each =>
    cases second with
    | exact is => contradiction
    | map size' each' =>
      refine .map (size.trans size') fun e member => ?_
      obtain ⟨f, there, key, value⟩ := each e member
      obtain ⟨g, beyond, key', value'⟩ := each' f there
      exact ⟨g, beyond,
        equates.trans (left.table.keys e member) (middle.table.keys f there) (right.table.keys g beyond) key key',
        equates.trans (left.entry member) (middle.entry there) (right.entry beyond) value value'⟩
  | record size each =>
    cases second with
    | exact is => contradiction
    | record size' each' =>
      refine .record (size.trans size') fun e member => ?_
      obtain ⟨f, there, name, value⟩ := each e member
      obtain ⟨g, beyond, name', value'⟩ := each' f there
      exact ⟨g, beyond, name.trans name',
        equates.trans (left.field member) (middle.field there) (right.field beyond) value value'⟩

theorem Equates.succ : h.Equates (n + 1) where
  symm left right equal :=
    (equalsIff equates right left).2 (((equalsIff equates left right).1 equal).symm equates left right)
  trans left middle right first second :=
    (equalsIff equates left right).2 (((equalsIff equates left middle).1 first).trans equates
      ((equalsIff equates middle right).1 second) left middle right)
  hash left right equal := ((equalsIff equates left right).1 equal).hash

end Equates

theorem equates (h : Heap) (n : Nat) : h.Equates n := by
  induction n with
  | zero =>
    have none : ∀ {v : Value}, ¬ h.Shallow 0 v := fun shallow => by
      obtain ⟨_, m, less, _⟩ := shallow
      exact Nat.not_lt_zero m less
    exact ⟨fun left => (none left).elim, fun left => (none left).elim, fun left => (none left).elim⟩
  | succ n ih => exact ih.succ

theorem Data.shallow (data : h.Data v) : h.Shallow (h.size + 1) v :=
  ⟨data, h.size, Nat.lt_succ_self _, data.acyclic.withinSize⟩

/-! ### Maps -/

def lastPut (h : Heap) (puts : List (Value × Value)) (key : Value) : Option Value :=
  (puts.reverse.find? fun p => h.equals key p.1).map (·.2)

theorem lastPutLater (puts : List (Value × Value)) (p : Value × Value) (key : Value) :
    h.lastPut (puts ++ [p]) key = if h.equals key p.1 then some p.2 else h.lastPut puts key := by
  unfold lastPut
  rw [List.reverse_append]
  cases same : h.equals key p.1 with
  | true => simp [same]
  | false => simp [same]

section Table

variable {entries puts : List (Value × Value)} {value : Value}

theorem Table.valueIff (table : h.Table n entries) (key : h.Shallow n k) :
    (h.entry? h.equals entries k).map (·.2) = some v ↔ ∃ e ∈ entries, h.equals k e.1 = true ∧ e.2 = v := by
  simp only [Option.map_eq_some_iff, table.entryIff (h.equates n) key, and_assoc]

theorem Table.hitIff (table : h.Table n entries) (key : h.Shallow n k) {e : Value × Value} (member : e ∈ entries) :
    (decide (h.hashKey e.1 = h.hashKey k) && h.equals k e.1) = true ↔ h.equals k e.1 = true := by
  rw [Bool.and_eq_true, decide_eq_true_eq]
  refine ⟨And.right, fun same => ⟨?_, same⟩⟩
  exact ((h.equates n).hash key (table.keys e member) same).symm

theorem Table.insertCases (table : h.Table n entries) (put : h.Shallow n p) {e : Value × Value} :
    e ∈ h.insertEntry entries p value ↔
      (∃ f ∈ entries, h.equals p f.1 = true ∧ e = (f.1, value)) ∨ (e ∈ entries ∧ h.equals p e.1 = false) ∨
        (e = (p, value) ∧ ∀ f ∈ entries, h.equals p f.1 = false) := by
  have hits := fun f member => table.hitIff put (e := f) member
  unfold insertEntry
  dsimp only
  split
  · next hit =>
    obtain ⟨f₀, member₀, hit₀⟩ := List.any_eq_true.1 hit
    have same₀ := (hits f₀ member₀).1 hit₀
    constructor
    · intro member
      obtain ⟨f, there, rfl⟩ := List.mem_map.1 member
      split
      · next hit => exact .inl ⟨f, there, (hits f there).1 hit, rfl⟩
      · next missed => exact .inr (.inl ⟨there, Bool.eq_false_iff.2 fun same => missed ((hits f there).2 same)⟩)
    · rintro (⟨f, there, same, rfl⟩ | ⟨there, differ⟩ | ⟨rfl, none⟩)
      · refine List.mem_map.2 ⟨f, there, ?_⟩
        rw [if_pos ((hits f there).2 same)]
      · refine List.mem_map.2 ⟨e, there, ?_⟩
        rw [if_neg fun hit => Bool.eq_false_iff.1 differ ((hits e there).1 hit)]
      · exact absurd same₀ (Bool.eq_false_iff.1 (none f₀ member₀))
  · next missed =>
    have none : ∀ f ∈ entries, h.equals p f.1 = false := fun f there => Bool.eq_false_iff.2 fun same =>
      missed (List.any_eq_true.2 ⟨f, there, (hits f there).2 same⟩)
    rw [List.mem_append, List.mem_singleton]
    constructor
    · rintro (there | rfl)
      · exact .inr (.inl ⟨there, none e there⟩)
      · exact .inr (.inr ⟨rfl, none⟩)
    · rintro (⟨f, there, same, _⟩ | ⟨there, _⟩ | ⟨rfl, _⟩)
      · exact absurd same (Bool.eq_false_iff.1 (none f there))
      · exact .inl there
      · exact .inr rfl

theorem Table.insert (table : h.Table n entries) (put : h.Shallow n p) : h.Table n (h.insertEntry entries p value) := by
  refine ⟨?_, fun e member => ?_⟩
  · unfold insertEntry
    dsimp only
    split
    · rw [List.pairwise_map]
      refine table.apart.imp fun {e f} differ => ?_
      split <;> split <;> exact differ
    · next missed =>
      refine List.pairwise_append.2 ⟨table.apart, List.pairwise_singleton _ _, ?_⟩
      simp only [List.mem_singleton, forall_eq]
      intro e member
      refine Bool.eq_false_iff.2 fun same => missed ?_
      refine List.any_eq_true.2 ⟨e, member, (table.hitIff put member).2 ?_⟩
      exact (h.equates n).symm (table.keys e member) put same
  · rcases (table.insertCases put).1 member with ⟨f, there, _, rfl⟩ | ⟨there, _⟩ | ⟨rfl, _⟩
    · exact table.keys f there
    · exact table.keys e there
    · exact put

theorem Table.insertBinds (table : h.Table n entries) (put : h.Shallow n p) (key : h.Shallow n k) :
    (h.entry? h.equals (h.insertEntry entries p value) k).map (·.2) =
      if h.equals k p then some value else (h.entry? h.equals entries k).map (·.2) := by
  have equates := h.equates n
  have inserted : ∀ e, e ∈ h.insertEntry entries p value ↔
      (∃ f ∈ entries, h.equals p f.1 = true ∧ e = (f.1, value)) ∨ (e ∈ entries ∧ h.equals p e.1 = false) ∨
        (e = (p, value) ∧ ∀ f ∈ entries, h.equals p f.1 = false) := fun e => table.insertCases put
  refine Option.ext fun v => ?_
  rw [(table.insert put).valueIff key]
  split
  · next same =>
    have hits : ∀ f ∈ entries, h.equals k f.1 = true → h.equals p f.1 = true := fun f there =>
      equates.trans put key (table.keys f there) (equates.symm key put same)
    constructor
    · rintro ⟨e, member, equal, rfl⟩
      rcases (inserted e).1 member with ⟨f, there, _, rfl⟩ | ⟨there, differ⟩ | ⟨rfl, _⟩
      · rfl
      · exact absurd (hits e there equal) (Bool.eq_false_iff.1 differ)
      · rfl
    · rintro ⟨⟩
      by_cases hit : ∃ f ∈ entries, h.equals p f.1 = true
      · obtain ⟨f, there, equal⟩ := hit
        exact ⟨(f.1, value), (inserted _).2 (.inl ⟨f, there, equal, rfl⟩),
          equates.trans key put (table.keys f there) same equal, rfl⟩
      · have none : ∀ f ∈ entries, h.equals p f.1 = false := fun f there =>
          Bool.eq_false_iff.2 fun equal => hit ⟨f, there, equal⟩
        exact ⟨(p, value), (inserted _).2 (.inr (.inr ⟨rfl, none⟩)), same, rfl⟩
  · next differ =>
    have misses : ∀ f ∈ entries, h.equals k f.1 = true → h.equals p f.1 = false := fun f there equal =>
      Bool.eq_false_iff.2 fun hit => differ
        (equates.trans key (table.keys f there) put equal (equates.symm put (table.keys f there) hit))
    rw [table.valueIff key]
    constructor
    · rintro ⟨e, member, equal, rfl⟩
      rcases (inserted e).1 member with ⟨f, there, hit, rfl⟩ | ⟨there, _⟩ | ⟨rfl, _⟩
      · exact absurd hit (Bool.eq_false_iff.1 (misses f there equal))
      · exact ⟨e, there, equal, rfl⟩
      · exact absurd equal differ
    · rintro ⟨e, there, equal, rfl⟩
      exact ⟨e, (inserted e).2 (.inr (.inl ⟨there, misses e there equal⟩)), equal, rfl⟩

theorem entriesLater (puts : List (Value × Value)) (p : Value × Value) :
    h.entriesOf (puts ++ [p]) = h.insertEntry (h.entriesOf puts) p.1 p.2 := by
  unfold entriesOf
  rw [List.foldl_append]
  rfl

theorem entriesTable (keys : ∀ p ∈ puts, h.Shallow n p.1) : h.Table n (h.entriesOf puts) := by
  induction puts using List.reverseRecOn with
  | nil => exact ⟨.nil, nofun⟩
  | append_singleton puts p ih =>
    simp only [List.forall_mem_append, List.forall_mem_singleton] at keys
    rw [entriesLater]
    exact (ih keys.1).insert keys.2

theorem entriesBind (keys : ∀ p ∈ puts, h.Shallow n p.1) (key : h.Shallow n k) :
    (h.entry? h.equals (h.entriesOf puts) k).map (·.2) = h.lastPut puts k := by
  induction puts using List.reverseRecOn with
  | nil => rfl
  | append_singleton puts p ih =>
    simp only [List.forall_mem_append, List.forall_mem_singleton] at keys
    rw [entriesLater, (entriesTable keys.1).insertBinds keys.2 key, ih keys.1, lastPutLater]

theorem entriesPut (keys : ∀ p ∈ puts, h.Shallow n p.1) {e : Value × Value} (member : e ∈ h.entriesOf puts) :
    ∃ p ∈ puts, e.1 = p.1 := by
  induction puts using List.reverseRecOn generalizing e with
  | nil => contradiction
  | append_singleton puts p ih =>
    simp only [List.forall_mem_append, List.forall_mem_singleton] at keys
    rw [entriesLater, (entriesTable keys.1).insertCases keys.2] at member
    have before : ∀ f ∈ h.entriesOf puts, ∃ q ∈ puts ++ [p], f.1 = q.1 := fun f there => by
      obtain ⟨q, put, same⟩ := ih keys.1 there
      exact ⟨q, List.mem_append_left _ put, same⟩
    rcases member with ⟨f, there, _, rfl⟩ | ⟨there, _⟩ | ⟨rfl, _⟩
    · exact before f there
    · exact before e there
    · exact ⟨p, by simp, rfl⟩

theorem entriesCover (keys : ∀ p ∈ puts, h.Shallow n p.1) {p : Value × Value} (put : p ∈ puts) :
    ∃ e ∈ h.entriesOf puts, h.equals p.1 e.1 = true := by
  have key := keys p put
  have last : (h.lastPut puts p.1).isSome := by
    rw [lastPut, Option.isSome_map, List.find?_isSome]
    exact ⟨p, List.mem_reverse.2 put, equalsSelf key.data⟩
  rw [← entriesBind keys key, Option.isSome_map] at last
  obtain ⟨e, found⟩ := Option.isSome_iff_exists.1 last
  exact ⟨e, ((entriesTable keys).entryIff (h.equates n) key).1 found⟩

end Table

/-! ### Puts into a map that is there -/

/-- A value that does not hold a map, at any depth. -/
inductive Avoids (h : Heap) (a : Address) : Value → Prop
  | of {v : Value} (other : v ≠ .map a) (inner : ∀ p ∈ h.parts v, Avoids h a p) : Avoids h a v

theorem Avoids.other (avoids : h.Avoids a v) : v ≠ .map a := by
  cases avoids with
  | of other _ => exact other

theorem Avoids.inner (avoids : h.Avoids a v) : ∀ p ∈ h.parts v, h.Avoids a p := by
  cases avoids with
  | of _ inner => exact inner

def putAll (h : Heap) (a : Address) (puts : List (Value × Value)) : Heap :=
  puts.foldl (fun h (k, v) => h.setMap a (h.insertEntry (h.map a) k v)) h

variable {entries puts : List (Value × Value)}

theorem setMapSelf (inRange : a < h.maps.size) : (h.setMap a entries).map a = entries := by
  simp [setMap, map, Array.getD, inRange]

theorem setMapOther {b : Address} (other : b ≠ a) : (h.setMap a entries).map b = h.map b := by
  simp only [setMap, map, Array.getD, Array.size_setIfInBounds, Array.getInternal_eq_getElem]
  split
  · exact Array.getElem_setIfInBounds_ne _ other.symm
  · rfl

theorem Avoids.shares (avoids : h.Avoids a v) : h.Shares (h.setMap a entries) v := by
  refine ⟨fun _ _ => rfl, fun b is => setMapOther ?_, fun _ _ => rfl⟩
  rintro rfl
  exact avoids.other is

theorem Avoids.equals (left : h.Avoids a v) (right : h.Avoids a w) :
    (h.setMap a entries).equals v w = h.equals v w := by
  suffices within : ∀ n v w, h.Avoids a v → h.Avoids a w →
      (h.setMap a entries).equalWithin n v w = h.equalWithin n v w by
    have size : (h.setMap a entries).size = h.size := by simp [Heap.size, setMap]
    unfold Heap.equals
    rw [size]
    exact within _ v w left right
  intro n
  induction n with
  | zero => exact fun v w left right => equalByCongr rfl left.shares right.shares fun _ _ _ _ => rfl
  | succ n ih =>
    intro v w left right
    exact equalByCongr rfl left.shares right.shares fun p inside q there =>
      ih p q (left.inner p inside) (right.inner q there)

theorem insertCongr {es : List (Value × Value)} {value : Value} (key : h.Avoids a k)
    (keys : ∀ e ∈ es, h.Avoids a e.1) :
    (h.setMap a entries).insertEntry es k value = h.insertEntry es k value := by
  have hits : ∀ e ∈ es, (decide ((h.setMap a entries).hashKey e.1 = (h.setMap a entries).hashKey k)
      && (h.setMap a entries).equals k e.1) = (decide (h.hashKey e.1 = h.hashKey k) && h.equals k e.1) := by
    intro e member
    rw [key.equals (keys e member)]
    rfl
  have any : (es.any fun e => decide ((h.setMap a entries).hashKey e.1 = (h.setMap a entries).hashKey k)
      && (h.setMap a entries).equals k e.1) = es.any fun e => decide (h.hashKey e.1 = h.hashKey k) && h.equals k e.1 :=
    Bool.eq_iff_iff.2 (by simp only [List.any_eq_true]; exact exists_congr fun e => and_congr_right fun m => by rw [hits e m])
  unfold insertEntry
  dsimp only
  rw [any]
  split
  · exact List.map_congr_left fun e member => by simp only [hits e member]
  · rfl

theorem putAllIs (inRange : a < h.maps.size) (empty : h.map a = []) (keys : ∀ p ∈ puts, h.Shallow n p.1 ∧ h.Avoids a p.1) :
    h.putAll a puts = h.setMap a (h.entriesOf puts) := by
  induction puts using List.reverseRecOn with
  | nil =>
    have same : h.maps.setIfInBounds a [] = h.maps := by
      rw [← empty, map, Array.getD, dif_pos inRange, Array.setIfInBounds, dif_pos inRange]
      exact Array.set_getElem_self inRange
    change h = { h with maps := h.maps.setIfInBounds a [] }
    rw [same]
  | append_singleton puts p ih =>
    simp only [List.forall_mem_append, List.forall_mem_singleton] at keys
    have before := ih keys.1
    unfold putAll at before ⊢
    rw [List.foldl_append, before, List.foldl_cons, List.foldl_nil, setMapSelf inRange, entriesLater]
    dsimp only
    rw [insertCongr keys.2.2]
    · simp [setMap]
    · intro e member
      obtain ⟨q, put, same⟩ := entriesPut (fun q put => (keys.1 q put).1) member
      exact same ▸ (keys.1 q put).2

/-- Equality is given by its own recursion; it is an equivalence on finite data and equal data hash alike. So a map into
which entries were put has one for each class of equal keys, and any key of the class finds what was put last. -/
theorem equalityOfData (h : Heap) :
    (∀ v w, h.Data v → h.equals v w = h.equalBy h.equals v w) ∧
    (∀ v, h.Data v → h.equals v v = true) ∧
    (∀ v w, h.Data v → h.Data w → h.equals v w = true → h.equals w v = true) ∧
    (∀ u v w, h.Data u → h.Data v → h.Data w → h.equals u v = true → h.equals v w = true → h.equals u w = true) ∧
    (∀ v w, h.Data v → h.Data w → h.equals v w = true → h.hashKey v = h.hashKey w) ∧
    ∀ a puts, a < h.maps.size → h.map a = [] → (∀ p ∈ puts, h.Data p.1 ∧ h.Avoids a p.1) →
      ((h.putAll a puts).map a).Pairwise (fun e f => h.equals e.1 f.1 = false) ∧
      (∀ p ∈ puts, ∃ e ∈ (h.putAll a puts).map a, h.equals p.1 e.1 = true) ∧
      (∀ e ∈ (h.putAll a puts).map a, ∃ p ∈ puts, e.1 = p.1) ∧
      ∀ k, h.Data k → h.Avoids a k → (h.putAll a puts).lookup a k = h.lastPut puts k := by
  have equates := h.equates (h.size + 1)
  refine ⟨fun v w data => data.acyclic.equalsIs w, fun _ => equalsSelf, ?_, ?_, ?_, ?_⟩
  · exact fun v w left right => equates.symm left.shallow right.shallow
  · exact fun u v w left middle right => equates.trans left.shallow middle.shallow right.shallow
  · exact fun v w left right => equates.hash left.shallow right.shallow
  · intro a puts inRange empty given
    have keys : ∀ p ∈ puts, h.Shallow (h.size + 1) p.1 := fun p put => (given p put).1.shallow
    have is := putAllIs inRange empty fun p put => ⟨keys p put, (given p put).2⟩
    have entries : (h.putAll a puts).map a = h.entriesOf puts := by rw [is, setMapSelf inRange]
    rw [entries]
    refine ⟨(entriesTable keys).apart, fun p put => entriesCover keys put, fun e member => entriesPut keys member, ?_⟩
    intro k data avoids
    rw [← entriesBind keys data.shallow, Heap.lookup, entries, is]
    congr 1
    refine entryCongr rfl fun e member => ?_
    obtain ⟨p, put, same⟩ := entriesPut keys member
    exact avoids.equals (same ▸ (given p put).2)

/-- Two records of maps under list keys, and a map that is still empty. -/
def twins : Heap :=
  { Heap.empty with
    lists := #[#[.int 1, .string "a"], #[.boxed (.long 1), .string "a"]]
    maps := #[[(.list 0, .null)], [(.list 1, .null)], []]
    records := #[⟨[("x", .map 0)]⟩, ⟨[("x", .map 1)]⟩] }

theorem twinsData {i : Nat} (less : i < 2) : twins.Data (.record i) := by
  have each : i = 0 ∨ i = 1 := by omega
  have list : twins.Data (.list i) := by
    refine .list ?_
    rcases each with rfl | rfl <;>
      exact List.forall_mem_cons.2 ⟨.exact rfl, List.forall_mem_singleton.2 (.exact rfl)⟩
  have map : twins.Data (.map i) := by
    rcases each with rfl | rfl <;>
      exact .map (List.pairwise_singleton _ _) (List.forall_mem_singleton.2 list) (List.forall_mem_singleton.2 (.exact rfl))
  rcases each with rfl | rfl <;>
    exact .record (List.pairwise_singleton _ _) (List.forall_mem_singleton.2 map)

theorem twinsAvoid {i : Nat} (less : i < 2) : twins.Avoids 2 (.record i) := by
  have each : i = 0 ∨ i = 1 := by omega
  have leaf : ∀ {v x}, Value.exact? v = some x → twins.Avoids 2 v := fun {v x} is =>
    .of (by rintro rfl; contradiction) (by rw [exactParts is]; nofun)
  have list : twins.Avoids 2 (.list i) := by
    refine .of nofun ?_
    rcases each with rfl | rfl <;>
      exact List.forall_mem_cons.2 ⟨leaf rfl, List.forall_mem_singleton.2 (leaf rfl)⟩
  have map : twins.Avoids 2 (.map i) := by
    refine .of (fun same => by cases same; contradiction) ?_
    rcases each with rfl | rfl <;>
      exact List.forall_mem_cons.2 ⟨list, List.forall_mem_singleton.2 (leaf rfl)⟩
  refine .of nofun ?_
  rcases each with rfl | rfl <;> exact List.forall_mem_singleton.2 map

/-- The twins are equal both ways, and what was put under the second is found under the first. -/
theorem twinsAgree :
    twins.equals (.record 0) (.record 1) = true ∧ twins.equals (.record 1) (.record 0) = true ∧
      (twins.putAll 2 [(.record 0, .int 7), (.record 1, .int 8)]).lookup 2 (.record 0) = some (.int 8) := by
  have equal : twins.equals (.record 0) (.record 1) = true := by decide +kernel
  obtain ⟨_, _, symm, _, _, maps⟩ := equalityOfData twins
  have zero : (0 : Nat) < 2 := by decide
  have one : (1 : Nat) < 2 := by decide
  obtain ⟨_, _, _, found⟩ := maps 2 [(.record 0, .int 7), (.record 1, .int 8)] (by decide) rfl (by
    simp only [List.forall_mem_cons]
    exact ⟨⟨twinsData zero, twinsAvoid zero⟩, ⟨twinsData one, twinsAvoid one⟩, nofun⟩)
  refine ⟨equal, symm _ _ (twinsData zero) (twinsData one) equal, ?_⟩
  rw [found _ (twinsData zero) (twinsAvoid zero), lastPut, List.reverse_cons, List.reverse_singleton, List.singleton_append,
    List.find?_cons, equal]
  rfl

end Heap

end QueryMachine
