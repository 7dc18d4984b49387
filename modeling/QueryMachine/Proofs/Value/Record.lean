import QueryMachine.Machine.World
import QueryMachine.Ty.Basic
import QueryMachine.Proofs.Value.Equality

/-! Open records after any puts: one entry for each name up to ASCII case, spelt and placed as it was put first, with
the value that was put last. Such records are equal where their names read alike. -/
namespace QueryMachine

namespace Record

variable {r s : Record Value} {name : String} {v : Value} {puts : List (String × Value)}

theorem matchingIff {c : String × Value} : matching name c = true ↔ fold c.1 = fold name := beq_iff_eq

theorem getPut (r : Record Value) (name other : String) (v : Value) :
    (r.put name v).get? other = if fold name = fold other then some v else r.get? other := by
  unfold put get?
  by_cases known : r.contains name = true
  · rw [if_pos known, List.find?_map]
    have keeps : (matching other ∘ fun e : String × Value => if matching name e = true then (e.1, v) else e) =
        matching other := by
      funext e
      simp only [Function.comp]
      split <;> rfl
    rw [keeps, Option.map_map]
    split
    · next same =>
      obtain ⟨e, inside, matches_⟩ := List.any_eq_true.1 known
      have there : (r.entries.find? (matching other)).isSome = true := by
        refine List.find?_isSome.2 ⟨e, inside, ?_⟩
        rw [matchingIff] at matches_ ⊢
        exact matches_.trans same
      obtain ⟨x, found⟩ := Option.isSome_iff_exists.1 there
      have at_ := List.find?_some found
      have hit : matching name x = true := by
        rw [matchingIff] at at_ ⊢
        exact at_.trans same.symm
      rw [found]
      simp [hit]
    · next apart =>
      cases found : r.entries.find? (matching other) with
      | none => rfl
      | some x =>
        have at_ := List.find?_some found
        have missed : ¬ matching name x = true := by
          rw [matchingIff] at at_ ⊢
          intro hit
          exact apart (hit.symm.trans at_)
        simp [missed]
  · rw [if_neg known, List.find?_append]
    split
    · next same =>
      have nowhere : r.entries.find? (matching other) = none := by
        refine List.find?_eq_none.2 ?_
        intro e inside matches_
        refine known (List.any_eq_true.2 ⟨e, inside, ?_⟩)
        rw [matchingIff] at matches_ ⊢
        exact matches_.trans same.symm
      have here : matching other (name, v) = true := matchingIff.2 same
      rw [nowhere, Option.none_or, List.find?_cons_of_pos here]
      rfl
    · next apart =>
      have missed : ¬ matching other (name, v) = true := fun hit => apart (matchingIff.1 hit)
      rw [List.find?_cons_of_neg missed, List.find?_nil, Option.or_none]

def Distinct (r : Record Value) : Prop := r.entries.Pairwise fun e f => fold e.1 ≠ fold f.1

theorem Distinct.reads (distinct : r.Distinct) {e : String × Value} (inside : e ∈ r.entries) :
    r.get? e.1 = some e.2 := by
  unfold get?
  unfold Distinct at distinct
  generalize r.entries = entries at distinct inside
  induction entries with
  | nil => simp at inside
  | cons f fs ih =>
    rw [List.pairwise_cons] at distinct
    rcases List.mem_cons.1 inside with rfl | later
    · rw [List.find?_cons_of_pos (matchingIff.2 rfl)]
      rfl
    · have missed : ¬ matching e.1 f = true := fun hit => distinct.1 e later (matchingIff.1 hit)
      rw [List.find?_cons_of_neg missed]
      exact ih distinct.2 later

def spellings : List String → List String
  | [] => []
  | name :: rest => name :: (spellings rest).filter fun other => fold other ≠ fold name

def lastPut (puts : List (String × Value)) (name : String) : Option Value :=
  (puts.reverse.find? (matching name)).map (·.2)

def putAll (r : Record Value) (puts : List (String × Value)) : Record Value :=
  puts.foldl (fun r p => r.put p.1 p.2) r

def keys (r : Record Value) : List String := r.entries.map fun e => fold e.1

theorem spellingsLater (names : List String) (name : String) : spellings (names ++ [name]) =
    if ∃ other ∈ names, fold other = fold name then spellings names else spellings names ++ [name] := by
  induction names with
  | nil => simp [spellings]
  | cons first rest ih =>
    rw [List.cons_append, spellings, ih, spellings]
    by_cases again : ∃ other ∈ rest, fold other = fold name
    · obtain ⟨other, inside, same⟩ := again
      rw [if_pos ⟨other, inside, same⟩, if_pos ⟨other, List.mem_cons_of_mem _ inside, same⟩]
    · rw [if_neg again, List.filter_append]
      by_cases same : fold first = fold name
      · rw [if_pos ⟨first, List.mem_cons_self, same⟩]
        simp [same]
      · rw [if_neg]
        · simp [Ne.symm same]
        · rintro ⟨other, inside, matches_⟩
          rcases List.mem_cons.1 inside with rfl | later
          · exact same matches_
          · exact again ⟨other, later, matches_⟩

theorem lastPutLater (puts : List (String × Value)) (p : String × Value) (name : String) :
    lastPut (puts ++ [p]) name = if fold p.1 = fold name then some p.2 else lastPut puts name := by
  unfold lastPut
  rw [List.reverse_append, List.reverse_singleton, List.singleton_append]
  split
  · next same => rw [List.find?_cons_of_pos (matchingIff.2 same)]; rfl
  · next other => rw [List.find?_cons_of_neg fun hit => other (matchingIff.1 hit)]

theorem lastPutNone : lastPut puts name = none ↔ ∀ p ∈ puts, fold p.1 ≠ fold name := by
  unfold lastPut
  simp only [Option.map_eq_none_iff, List.find?_eq_none, List.mem_reverse, matchingIff, ne_eq]

theorem lastPutMember (last : lastPut puts name = some v) : ∃ p ∈ puts, p.2 = v := by
  obtain ⟨p, found, is⟩ := Option.map_eq_some_iff.1 last
  exact ⟨p, List.mem_reverse.1 (List.mem_of_find?_eq_some found), is⟩

/-! ### One put -/

theorem keyIff : (∃ v, r.get? name = some v) ↔ fold name ∈ r.keys := by
  unfold get? keys
  rw [← Option.isSome_iff_exists, Option.isSome_map, List.find?_isSome, List.mem_map]
  simp only [matchingIff]

theorem containsIff : r.contains name = true ↔ fold name ∈ r.keys := by
  unfold contains keys
  rw [List.any_eq_true, List.mem_map]
  simp only [matchingIff]

theorem putNames : (r.put name v).names = if r.contains name = true then r.names else r.names ++ [name] := by
  unfold put names
  split
  · rw [List.map_map]
    refine List.map_congr_left fun e _ => ?_
    simp only [Function.comp]
    split <;> rfl
  · simp

theorem keysNames (r : Record Value) : r.keys = r.names.map fold := by
  unfold keys names
  rw [List.map_map]
  rfl

theorem distinctIff : r.Distinct ↔ r.keys.Nodup := by
  unfold Distinct keys
  rw [List.Nodup, List.pairwise_map]

theorem Distinct.put (distinct : r.Distinct) (name : String) (v : Value) : (r.put name v).Distinct := by
  rw [distinctIff] at distinct ⊢
  rw [keysNames, putNames]
  split
  · rw [← keysNames]
    exact distinct
  · next new =>
    rw [containsIff] at new
    rw [List.map_append, ← keysNames, List.map_singleton]
    refine List.nodup_append.2 ⟨distinct, List.pairwise_singleton _ _, ?_⟩
    rintro key inside other last rfl
    exact new (List.mem_singleton.1 last ▸ inside)

/-! ### All puts -/

theorem emptyDistinct : Distinct .empty := List.Pairwise.nil

theorem Distinct.putAll (distinct : r.Distinct) (puts : List (String × Value)) : (r.putAll puts).Distinct := by
  induction puts generalizing r with
  | nil => exact distinct
  | cons p rest ih => exact ih (distinct.put p.1 p.2)

theorem putAllLater (puts : List (String × Value)) (p : String × Value) :
    r.putAll (puts ++ [p]) = (r.putAll puts).put p.1 p.2 := by
  simp [putAll]

theorem putAllReads (puts : List (String × Value)) (name : String) :
    (empty.putAll puts).get? name = lastPut puts name := by
  induction puts using List.reverseRecOn with
  | nil => rfl
  | append_singleton puts p ih => rw [putAllLater, getPut, lastPutLater, ih]

theorem putAllNames (puts : List (String × Value)) : (empty.putAll puts).names = spellings (puts.map (·.1)) := by
  induction puts using List.reverseRecOn with
  | nil => rfl
  | append_singleton puts p ih =>
    have again : (empty.putAll puts).contains p.1 = true ↔ ∃ other ∈ puts.map (·.1), fold other = fold p.1 := by
      rw [containsIff, ← keyIff, putAllReads, ← Option.ne_none_iff_exists', ne_eq, lastPutNone]
      simp
    rw [putAllLater, putNames, ih, List.map_append, List.map_singleton, spellingsLater]
    exact if_congr again rfl rfl

/-! ### Equality -/

theorem relLeft {R : Value → Value → Prop} {o : Option Value} (rel : Option.Rel R (some v) o) : ∃ w, o = some w ∧ R v w := by
  cases rel with
  | some holds => exact ⟨_, rfl, holds⟩

theorem relRight {R : Value → Value → Prop} {o : Option Value} (rel : Option.Rel R o (some v)) : ∃ w, o = some w ∧ R w v := by
  cases rel with
  | some holds => exact ⟨_, rfl, holds⟩

theorem keysKept (kept : ∀ name v, r.get? name = some v → ∃ w, s.get? name = some w) : r.keys ⊆ s.keys := by
  intro key member
  obtain ⟨e, _, is⟩ := List.mem_map.1 member
  subst is
  obtain ⟨v, read⟩ := keyIff.2 member
  exact keyIff.1 (kept e.1 v read)

theorem equalsReads {eq : Value → Value → Bool} (left : r.Distinct) (right : s.Distinct) :
    r.equals eq s = true ↔ ∀ name, Option.Rel (fun v w => eq v w = true) (r.get? name) (s.get? name) := by
  unfold equals
  rw [Bool.and_eq_true, beq_iff_eq, List.all_eq_true]
  constructor
  · rintro ⟨size, each⟩ name
    -- No name of the one record is missing in the other, and there are as many of them.
    have inside : r.keys ⊆ s.keys := by
      intro key member
      obtain ⟨e, held, rfl⟩ := List.mem_map.1 member
      obtain ⟨w, read, _⟩ := (Option.any_eq_true _ _).1 (each e held)
      exact keyIff.1 ⟨w, read⟩
    have same : r.keys.Perm s.keys := by
      refine (List.Nodup.subperm (distinctIff.1 left) inside).perm_of_length_le ?_
      simp only [keys, List.length_map]
      exact Nat.le_of_eq size.symm
    cases read : r.get? name with
    | none =>
      cases other : s.get? name with
      | none => exact .none
      | some w =>
        obtain ⟨v, there⟩ := keyIff.2 (same.mem_iff.2 (keyIff.1 ⟨w, other⟩))
        rw [read] at there
        contradiction
    | some v =>
      obtain ⟨e, held, matches_, rfl⟩ := (Heap.fieldIff left).1 read
      obtain ⟨w, other, equal⟩ := (Option.any_eq_true _ _).1 (each e held)
      have here : s.get? name = some w := by
        rw [← other]
        unfold get? matching
        rw [matches_]
      rw [here]
      exact .some equal
  · intro alike
    have there : r.keys ⊆ s.keys := by
      refine keysKept fun name v read => ?_
      obtain ⟨w, other, _⟩ := relLeft (read ▸ alike name)
      exact ⟨w, other⟩
    have back : s.keys ⊆ r.keys := by
      refine keysKept fun name w read => ?_
      obtain ⟨v, other, _⟩ := relRight (read ▸ alike name)
      exact ⟨v, other⟩
    have same : r.keys.Perm s.keys :=
      (List.perm_ext_iff_of_nodup (distinctIff.1 left) (distinctIff.1 right)).2 fun _ => ⟨fun h => there h, fun h => back h⟩
    have size := same.length_eq
    rw [keys, keys, List.length_map, List.length_map] at size
    refine ⟨size, ?_⟩
    rintro ⟨name, v⟩ held
    have read : r.get? name = some v := left.reads held
    obtain ⟨w, other, equal⟩ := relLeft (read ▸ alike name)
    exact (Option.any_eq_true _ _).2 ⟨w, other, equal⟩

end Record

namespace Heap

variable {h : Heap} {a b : Address}

def putField (h : Heap) (p : Address × String × Value) : Heap :=
  h.setRecord p.1 ((h.record p.1).put p.2.1 p.2.2)

def putFields (h : Heap) (puts : List (Address × String × Value)) : Heap := puts.foldl putField h

def given (a : Address) (puts : List (Address × String × Value)) : List (String × Value) :=
  (puts.filter fun p => p.1 = a).map (·.2)

theorem setRecordIs (inRange : a < h.records.size) (r : Record Value) :
    (h.setRecord b r).record a = if b = a then r else h.record a := by
  unfold setRecord record
  simp only [Array.getD_eq_getD_getElem?, Array.getElem?_setIfInBounds]
  split
  · next same => simp [same, inRange]
  · rfl

theorem putFieldsIs (inRange : a < h.records.size) (puts : List (Address × String × Value)) :
    (h.putFields puts).record a = (h.record a).putAll (given a puts) := by
  induction puts generalizing h with
  | nil => rfl
  | cons p rest ih =>
    have kept : a < (h.putField p).records.size := by simpa [putField, setRecord] using inRange
    have later := ih kept
    rw [putField, setRecordIs inRange] at later
    refine later.trans ?_
    unfold given
    split
    · next same => simp [same, Record.putAll]
    · next other => simp [other]

/-- A record to which values were put in any order has one entry for each name up to ASCII case, spelt and placed as it was
first, under which any spelling reads what was put last. Two such records of finite values that equal themselves, as data
do, are equal exactly where each name reads equal values or nothing in both. -/
theorem recordsKeepNames (puts : List (Address × String × Value)) (inRange : a < h.records.size)
    (empty : h.record a = .empty) (inRange' : b < h.records.size) (empty' : h.record b = .empty) :
    let g := h.putFields puts
    (g.record a).entries.Pairwise (fun e f => Record.fold e.1 ≠ Record.fold f.1) ∧
    (g.record a).names = Record.spellings ((given a puts).map (·.1)) ∧
    (∀ name, (g.record a).get? name = Record.lastPut (given a puts) name) ∧
    ((∀ p ∈ given a puts, g.Acyclic p.2 ∧ g.equals p.2 p.2 = true) →
      (g.equals (.record a) (.record b) = true ↔ ∀ name, Option.Rel (fun v w => g.equals v w = true)
        (Record.lastPut (given a puts) name) (Record.lastPut (given b puts) name))) := by
  intro g
  have left : g.record a = Record.empty.putAll (given a puts) := empty ▸ putFieldsIs inRange puts
  have right : g.record b = Record.empty.putAll (given b puts) := empty' ▸ putFieldsIs inRange' puts
  have distinct : (g.record a).Distinct := left ▸ Record.emptyDistinct.putAll _
  have distinct' : (g.record b).Distinct := right ▸ Record.emptyDistinct.putAll _
  have reads : ∀ name, (g.record a).get? name = Record.lastPut (given a puts) name := left ▸ Record.putAllReads _
  have reads' : ∀ name, (g.record b).get? name = Record.lastPut (given b puts) name := right ▸ Record.putAllReads _
  refine ⟨distinct, left ▸ Record.putAllNames _, reads, fun data => ?_⟩
  have acyclic : g.Acyclic (.record a) := by
    refine .of fun v inside => ?_
    obtain ⟨e, held, rfl⟩ := List.mem_map.1 inside
    obtain ⟨p, member, same⟩ := Record.lastPutMember ((reads e.1).symm.trans (distinct.reads held))
    exact same ▸ (data p member).1
  have unfolded : g.equals (.record a) (.record b) = (a == b || (g.record a).equals g.equals (g.record b)) :=
    acyclic.equalsIs (.record b)
  rw [unfolded, Bool.or_eq_true, beq_iff_eq, Record.equalsReads distinct distinct']
  simp only [reads, reads']
  refine or_iff_right_of_imp ?_
  -- A record equals itself unread, so that its values have to equal themselves too.
  rintro rfl name
  cases last : Record.lastPut (given a puts) name with
  | none => exact .none
  | some v =>
    obtain ⟨p, member, same⟩ := Record.lastPutMember last
    exact .some (same ▸ (data p member).2)

def sheets : Heap :=
  { Heap.empty with
    lists := #[#[.int 1], #[.boxed (.long 1)]]
    records := #[.empty, .empty] }

/-- The one record is filled in another order and spelling, and one of its values is replaced. -/
theorem spellingsAgree :
    let puts := [(0, "Name", .list 0), (1, "b", .null), (0, "B", .null), (1, "NAME", .string "x"), (1, "name", .list 1)]
    let g := sheets.putFields puts
    (g.record 1).names = ["b", "NAME"] ∧ (g.record 1).get? "nAME" = some (.list 1) ∧
      g.equals (.record 0) (.record 1) = true := by
  intro puts g
  obtain ⟨_, _, _, equal⟩ := recordsKeepNames (h := sheets) (a := 0) (b := 1) puts (by decide) rfl (by decide) rfl
  obtain ⟨_, names, reads, _⟩ := recordsKeepNames (h := sheets) (a := 1) (b := 0) puts (by decide) rfl (by decide) rfl
  have first : given 0 puts = [("Name", .list 0), ("B", .null)] := rfl
  have second : given 1 puts = [("b", .null), ("NAME", .string "x"), ("name", .list 1)] := rfl
  have folds : Record.fold "Name" = "name" ∧ Record.fold "NAME" = "name" ∧ Record.fold "nAME" = "name" ∧
      Record.fold "name" = "name" ∧ Record.fold "B" = "b" ∧ Record.fold "b" = "b" := by decide +kernel
  obtain ⟨name₁, name₂, name₃, name₄, b₁, b₂⟩ := folds
  have items : (g.list 0).toList = [.int 1] := rfl
  have list : g.Data (.list 0) := .list (items ▸ List.forall_mem_singleton.2 (.exact rfl))
  have null : g.Data .null := .exact rfl
  have lists : g.equals (.list 0) (.list 1) = true := by decide +kernel
  refine ⟨?_, ?_, (equal ?_).2 ?_⟩
  · rw [names, second]
    simp [Record.spellings, name₂, name₄, b₂]
  · rw [reads, second]
    simp [Record.lastPut, Record.matching, name₃, name₄]
  · rw [first]
    refine List.forall_mem_cons.2 ⟨⟨list.acyclic, equalsSelf list⟩, List.forall_mem_singleton.2 ?_⟩
    exact ⟨null.acyclic, equalsSelf null⟩
  · intro name
    rw [first, second]
    simp only [Record.lastPut, Record.matching, name₁, name₂, name₄, b₁, b₂, List.reverse_cons, List.reverse_nil,
      List.nil_append, List.cons_append, List.find?_cons, List.find?_nil, beq_eq_decide]
    by_cases isName : "name" = Record.fold name
    · simpa [← isName] using lists
    · by_cases isB : "b" = Record.fold name
      · simpa [← isB] using equalsSelf null
      · simp [isName, isB]

end Heap

end QueryMachine
