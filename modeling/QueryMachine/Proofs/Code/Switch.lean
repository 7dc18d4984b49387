import QueryMachine.Code.Emitter
import QueryMachine.Machine.Core

/-! Tables of switches. Their keys ascend, so that halving finds a key that is there, and names in one bucket are
compared in the order of the cases: what a name leads to does not depend on hashes. -/
namespace QueryMachine

def Ascending {α : Type} (table : List (Int32 × α)) : Prop := table.Pairwise fun a b => a.1 < b.1

namespace Emit

variable {α : Type} {key k : Int32} {value : α} {table : List (Int32 × α)}

theorem insertMem {x : Int32 × α} (inside : x ∈ insertCase key value table) : x = (key, value) ∨ x ∈ table := by
  induction table with
  | nil => exact .inl (List.mem_singleton.1 inside)
  | cons entry table ih =>
    obtain ⟨j, old⟩ := entry
    unfold insertCase at inside
    split at inside
    · exact List.mem_cons.1 inside
    · split at inside
      · next same =>
        subst same
        exact (List.mem_cons.1 inside).imp id (List.mem_cons_of_mem _)
      · rcases List.mem_cons.1 inside with rfl | later
        · exact .inr List.mem_cons_self
        · exact (ih later).imp id (List.mem_cons_of_mem _)

theorem insertAscends (ascends : Ascending table) : Ascending (insertCase key value table) := by
  induction table with
  | nil => exact List.pairwise_singleton _ _
  | cons entry table ih =>
    obtain ⟨j, old⟩ := entry
    obtain ⟨first, rest⟩ := List.pairwise_cons.1 ascends
    unfold insertCase
    split
    · next before =>
      refine List.pairwise_cons.2 ⟨?_, ascends⟩
      intro x inside
      rcases List.mem_cons.1 inside with rfl | later
      · exact before
      · exact Int32.lt_trans before (first x later)
    · next notBefore =>
      split
      · exact List.pairwise_cons.2 ⟨first, rest⟩
      · next differs =>
        refine List.pairwise_cons.2 ⟨?_, ih rest⟩
        intro x inside
        rcases insertMem inside with rfl | there
        · exact Int32.lt_of_le_of_ne (Int32.not_lt.1 notBefore) (Ne.symm differs)
        · exact first x there

theorem lookupCons : ((key, value) :: table).lookup k = if k = key then some value else table.lookup k := by
  rw [List.lookup_cons]
  by_cases same : k = key
  · rw [if_pos same, beq_iff_eq.2 same]
  · rw [if_neg same, beq_eq_false_iff_ne.2 same]

theorem ascendingLookup (ascends : Ascending table) (inside : (key, value) ∈ table) : table.lookup key = some value := by
  induction table with
  | nil => contradiction
  | cons entry table ih =>
    obtain ⟨first, rest⟩ := List.pairwise_cons.1 ascends
    rw [show entry = (entry.1, entry.2) from rfl, lookupCons]
    rcases List.mem_cons.1 inside with rfl | later
    · exact if_pos rfl
    · rw [if_neg (Ne.symm (Int32.ne_of_lt (first _ later)))]
      exact ih rest later

theorem insertLookup (ascends : Ascending table) :
    (insertCase key value table).lookup k = if k = key then some value else table.lookup k := by
  induction table with
  | nil => exact lookupCons
  | cons entry table ih =>
    obtain ⟨j, old⟩ := entry
    obtain ⟨_, rest⟩ := List.pairwise_cons.1 ascends
    unfold insertCase
    split
    · exact lookupCons
    · split
      · next same =>
        subst same
        rw [lookupCons, lookupCons]
        split <;> rfl
      · next differs =>
        rw [lookupCons, lookupCons, ih rest]
        split
        · next here => rw [if_neg fun same => differs (same.symm.trans here)]
        · rfl

section

def tableOf (cases : List (Int32 × Label)) : List (Int32 × Label) :=
  cases.foldl (fun table (k, l) => insertCase k l table) []

theorem foldHolds {cases : List (Int32 × Label)} (distinct : (cases.map (·.1)).Nodup) {table : List (Int32 × Label)}
    (ascends : Ascending table) :
    Ascending (cases.foldl (fun table (k, l) => insertCase k l table) table) ∧ ∀ key,
      (cases.foldl (fun table (k, l) => insertCase k l table) table).lookup key =
        (cases.lookup key).or (table.lookup key) := by
  induction cases generalizing table with
  | nil => exact ⟨ascends, fun _ => rfl⟩
  | cons x cases ih =>
    obtain ⟨apart, distinct⟩ := List.nodup_cons.1 distinct
    obtain ⟨after, found⟩ := ih distinct (insertAscends ascends)
    refine ⟨after, fun key => ?_⟩
    rw [List.foldl_cons, found, insertLookup ascends, show x = (x.1, x.2) from rfl, lookupCons]
    by_cases same : key = x.1
    · have missing : cases.lookup key = none := by
        rw [List.lookup_eq_none_iff]
        intro y inside
        rw [bne_iff_ne]
        exact fun is => apart (List.mem_map.2 ⟨y, inside, is.symm.trans same⟩)
      rw [if_pos same, if_pos same, missing]
      rfl
    · rw [if_neg same, if_neg same]

variable {cases : List (Int32 × Label)}

theorem tableAscends (distinct : (cases.map (·.1)).Nodup) : Ascending (tableOf cases) :=
  (foldHolds distinct List.Pairwise.nil).1

theorem tableLookup (distinct : (cases.map (·.1)).Nodup) (key : Int32) : (tableOf cases).lookup key = cases.lookup key := by
  rw [tableOf, (foldHolds distinct List.Pairwise.nil).2, List.lookup_nil, Option.or_none]

theorem tableInside (distinct : (cases.map (·.1)).Nodup) {x : Int32 × Label} (inside : x ∈ tableOf cases) : x ∈ cases := by
  have found := ascendingLookup (tableAscends distinct) inside
  rw [tableLookup distinct] at found
  obtain ⟨before, after, is, _⟩ := List.lookup_eq_some_iff.1 found
  exact is ▸ List.mem_append_right _ List.mem_cons_self

end

def entriesOf (hash : Int32) (cases : List (String × Label)) : List (String × Label) :=
  (cases.filter fun x => hash == Text.Units.hash (Text.Uppercase.text x.1)).map fun x => (Text.Uppercase.text x.1, x.2)

theorem casesHold (cases : List (String × Label)) {table : List (Int32 × List (String × Label))} (ascends : Ascending table) :
    Ascending (cases.foldl (fun table (name, l) =>
      let upper := Text.Uppercase.text name
      let hash := Text.Units.hash upper
      insertCase hash (((table.lookup hash).getD []) ++ [(upper, l)]) table) table) ∧
    ∀ hash, ((cases.foldl (fun table (name, l) =>
      let upper := Text.Uppercase.text name
      let hash := Text.Units.hash upper
      insertCase hash (((table.lookup hash).getD []) ++ [(upper, l)]) table) table).lookup hash).getD [] =
        (table.lookup hash).getD [] ++ entriesOf hash cases := by
  induction cases generalizing table with
  | nil => exact ⟨ascends, fun hash => (List.append_nil _).symm⟩
  | cons x cases ih =>
    obtain ⟨after, found⟩ := ih (insertAscends ascends)
    refine ⟨after, fun hash => ?_⟩
    rw [List.foldl_cons, found, insertLookup ascends]
    unfold entriesOf
    by_cases same : hash = Text.Units.hash (Text.Uppercase.text x.1) <;> simp [same]

theorem bucketsHold (cases : List (String × Label)) :
    Ascending (buckets cases) ∧ ∀ hash, ((buckets cases).lookup hash).getD [] = entriesOf hash cases :=
  casesHold cases List.Pairwise.nil

def caseOf (cases : List (String × Label)) (default : Label) (name : String) : Label :=
  ((cases.find? fun x => Text.Uppercase.text x.1 == Text.Uppercase.text name).map (·.2)).getD default

theorem entriesFind (cases : List (String × Label)) (default : Label) (name : String) :
    (((entriesOf (Text.Units.hash (Text.Uppercase.text name)) cases).find? fun x =>
      x.1 == Text.Uppercase.text name).map (·.2)).getD default = caseOf cases default name := by
  unfold caseOf
  refine congrArg (Option.getD · default) ?_
  induction cases with
  | nil => rw [entriesOf, List.filter_nil, List.map_nil, List.find?_nil, List.find?_nil]
  | cons x cases ih =>
    unfold entriesOf at ih ⊢
    by_cases same : Text.Uppercase.text x.1 = Text.Uppercase.text name
    · simp [same]
    · by_cases collides : Text.Units.hash (Text.Uppercase.text name) = Text.Units.hash (Text.Uppercase.text x.1)
      · rw [List.filter_cons_of_pos (by simpa using collides), List.map_cons, List.find?_cons_of_neg (by simpa using same),
          List.find?_cons_of_neg (by simpa using same), ih]
      · rw [List.filter_cons_of_neg (by simpa using collides), List.find?_cons_of_neg (by simpa using same), ih]

end Emit

namespace Machine

variable {cases : List (Int32 × Label)} {key : Int32}

theorem bisectFinds (ascends : Ascending cases) {i : Nat} (low : i < cases.length) (is : cases[i].1 = key)
    {fuel base size : Nat} (enough : size ≤ fuel) (first : base ≤ i) (last : i < base + size)
    (inside : base + size ≤ cases.length) : bisect cases key fuel base size = i := by
  have order : ∀ (j k : Nat) (lowJ : j < cases.length) (lowK : k < cases.length), j < k → cases[j].1 < cases[k].1 :=
    List.pairwise_iff_getElem.1 ascends
  induction fuel generalizing base size with
  | zero => omega
  | succ fuel ih =>
    unfold bisect
    split
    · omega
    · next several =>
      have mid : base + size / 2 < cases.length := by omega
      dsimp only
      rw [List.getElem?_eq_getElem mid, Option.any_some]
      by_cases above : key < cases[base + size / 2].1
      · have before : i < base + size / 2 := by
          refine Nat.lt_of_not_le fun after => ?_
          rcases Nat.lt_or_eq_of_le after with strictly | same
          · exact Int32.lt_asymm above (is ▸ order _ i mid low strictly)
          · subst same
            exact Int32.lt_irrefl (is ▸ above)
        rw [if_pos (by simpa using above)]
        exact ih (by omega) first (by omega) (by omega)
      · have after : base + size / 2 ≤ i := by
          refine Nat.le_of_not_lt fun before => ?_
          exact above (is ▸ order i _ low mid before)
        rw [if_neg (by simpa using above)]
        exact ih (by omega) after (by omega) (by omega)

theorem caseForIs (ascends : Ascending cases) (key : Int32) : caseFor? cases key = cases.lookup key := by
  unfold caseFor?
  cases found : cases.lookup key with
  | some l =>
    obtain ⟨before, after, is, _⟩ := List.lookup_eq_some_iff.1 found
    have member : (key, l) ∈ cases := is ▸ List.mem_append_right _ List.mem_cons_self
    obtain ⟨i, low, at_⟩ := List.mem_iff_getElem.1 member
    have here := bisectFinds ascends low (congrArg Prod.fst at_) (Nat.le_refl _) (Nat.zero_le i)
      (by rwa [Nat.zero_add]) (Nat.le_of_eq (Nat.zero_add _))
    rw [here, List.getElem?_eq_getElem low, at_]
    simp
  | none =>
    cases at_ : cases[bisect cases key cases.length 0 cases.length]? with
    | none => rfl
    | some c =>
      have differs := List.lookup_eq_none_iff.1 found c (List.mem_of_getElem? at_)
      have other : c.1 ≠ key := fun same => by simp [same] at differs
      change (if c.1 = key then some c.2 else none) = none
      exact if_neg other

end Machine

end QueryMachine
