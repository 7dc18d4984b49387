import QueryMachine.Proofs.Session

/-! Struct types that a session hands out, and the units they name. A type is remembered before its unit is added, so
where the unit is refused the next request for the same fields is answered with a type that has none. -/
namespace QueryMachine

/-- What an open session is asked for: a unit to add, or the struct type of a list of fields. -/
inductive Demand where
  | unit (u : UnitDraft)
  | struct (fields : List (String × Ty))

namespace Session

def meet (s : Session) : Demand → Session
  | .unit u => (Build.addUnit u s).2
  | .struct fields => (Struct.type fields s).2

def asked (s : Session) (demands : List Demand) : Session := demands.foldl meet s

theorem askedAppend (s : Session) (before after : List Demand) : s.asked (before ++ after) = (s.asked before).asked after :=
  List.foldl_append

end Session

namespace Struct

variable {s s₀ : Session} {fields : List (String × Ty)} {history : List Demand}

def Backed (s : Session) (fields : List (String × Ty)) (t : Ty) : Prop :=
  ∃ cls made, t = .struct false cls fields ∧ s.contains cls = true ∧ (unit cls fields t made).1 ∈ s.units

def Refused (s₀ : Session) (history : List Demand) (fields : List (String × Ty)) : Prop :=
  ∃ before after err, history = before ++ .struct fields :: after ∧ (type fields (s₀.asked before)).1 = .error err

theorem Refused.more (refused : Refused s₀ history fields) (later : List Demand) : Refused s₀ (history ++ later) fields := by
  obtain ⟨before, after, err, rfl, failed⟩ := refused
  exact ⟨before, after ++ later, err, by simp, failed⟩

def nextUnit (s : Session) (fields : List (String × Ty)) : UnitDraft × Frames :=
  unit (unitName s.structCount) fields (nextType s fields) s.frames

theorem addCases (unbuilt : s.built = false) (u : UnitDraft) :
    (s.Full ∨ s.contains u.name = true) ∧ (∃ err, Build.addUnit u s = (.error err, s)) ∨
    ¬ s.Full ∧ s.contains u.name = false ∧
      Build.addUnit u s = (.ok (), { s with names := u.name :: s.names, units := s.units ++ [u] }) := by
  have ends : Build.Ends (Build.addUnit u) s
      (fun _ s' => (s.Full ∨ s.contains u.name = true) ∧ s' = s)
      (fun _ s' => (¬ s.Full ∧ s.contains u.name = false) ∧
        s' = { s with names := u.name :: s.names, units := s.units ++ [u] }) :=
    Build.endsAddUnit unbuilt (fun _ _ why => ⟨why, rfl⟩) fun room fresh => ⟨⟨room, fresh⟩, rfl⟩
  rcases answer : Build.addUnit u s with ⟨err | ⟨⟩, s'⟩
  · obtain ⟨why, same⟩ := ends.error answer
    exact .inl ⟨why, err, by rw [same]⟩
  · obtain ⟨⟨room, fresh⟩, same⟩ := ends.ok answer
    exact .inr ⟨room, fresh, by rw [same]⟩

inductive Answers (s : Session) (fields : List (String × Ty)) : Except Error Ty × Session → Prop
  | repeated {name : String} {err : Error} : repeated? [] (fields.map (·.1)) = some name → Answers s fields (.error err, s)
  | known {t : Ty} : repeated? [] (fields.map (·.1)) = none → s.structs.lookup fields = some t → Answers s fields (.ok t, s)
  | registered : repeated? [] (fields.map (·.1)) = none → s.structs.lookup fields = none → ¬ s.Full →
    s.contains (unitName s.structCount) = false → Answers s fields (.ok (nextType s fields), added s fields (nextUnit s fields))
  | refused {err : Error} : repeated? [] (fields.map (·.1)) = none → s.structs.lookup fields = none →
    s.Full ∨ s.contains (unitName s.structCount) = true →
      Answers s fields (.error err, announced s fields (nextUnit s fields))

theorem typeAnswers (unbuilt : s.built = false) (fields : List (String × Ty)) : Answers s fields (type fields s) := by
  have ends : Build.Ends (type fields) s (fun err s' => Answers s fields (.error err, s'))
      fun t s' => Answers s fields (.ok t, s') := by
    unfold type
    rw [Build.endsBind, Build.endsOpen unbuilt]
    split
    · next name clash => exact .repeated clash
    · next clash =>
      rw [Build.endsBind, Build.endsGet]
      cases found : s.structs.lookup fields with
      | some t => exact .known clash found
      | none =>
        have fresh := unitFresh s fields
        have refused := fun err => @Answers.refused s fields err clash found
        have registered := Answers.registered clash found
        unfold nextUnit at refused registered
        simp only [unitName, nextType] at fresh refused registered
        generalize made : unit (unitStem ++ toString s.structCount) fields
          (.struct false (unitStem ++ toString s.structCount) fields) s.frames = u at fresh refused registered
        simp only [made, Build.endsBind, Build.endsSet]
        change Build.Ends (Build.addUnit u.1) (announced s fields u) _ _
        have name : u.1.name = unitStem ++ toString s.structCount := fresh.name
        refine Build.endsAddUnit unbuilt ?_ ?_
        · intro cause _ why
          rw [name] at why
          exact refused (.of cause) why
        · intro room new
          rw [name] at new
          exact registered room new
  rcases answer : type fields s with ⟨err | t, s'⟩
  · exact ends.error answer
  · exact ends.ok answer

theorem typeKnown {t : Ty} (unbuilt : s.built = false) (apart : repeated? [] (fields.map (·.1)) = none)
    (known : s.structs.lookup fields = some t) : type fields s = (.ok t, s) := by
  have answers := typeAnswers unbuilt fields
  generalize type fields s = r at answers
  cases answers with
  | repeated clash => rw [apart] at clash; contradiction
  | known _ found => rw [known] at found; cases found; rfl
  | registered _ new _ _ => rw [known] at new; contradiction
  | refused _ new _ => rw [known] at new; contradiction

structure Onward (s s' : Session) : Prop where
  unbuilt : s'.built = false
  names : s.names ⊆ s'.names
  units : s.units ⊆ s'.units

theorem Onward.refl (unbuilt : s.built = false) : Onward s s := ⟨unbuilt, List.Subset.refl _, List.Subset.refl _⟩

theorem Onward.trans {s' s'' : Session} (first : Onward s s') (second : Onward s' s'') : Onward s s'' :=
  ⟨second.unbuilt, List.Subset.trans first.names second.names, List.Subset.trans first.units second.units⟩

theorem announcedOnward (unbuilt : s.built = false) (u : UnitDraft × Frames) : Onward s (announced s fields u) :=
  ⟨unbuilt, List.Subset.refl _, List.Subset.refl _⟩

theorem addedOnward (unbuilt : s.built = false) (u : UnitDraft × Frames) : Onward s (added s fields u) :=
  ⟨unbuilt, List.subset_cons_self .., List.subset_append_left ..⟩

theorem meetOnward (unbuilt : s.built = false) (d : Demand) : Onward s (s.meet d) := by
  cases d with
  | unit u =>
    change Onward s (Build.addUnit u s).2
    rcases addCases unbuilt u with ⟨_, err, failed⟩ | ⟨_, _, accepted⟩
    · rw [failed]
      exact .refl unbuilt
    · rw [accepted]
      exact ⟨unbuilt, List.subset_cons_self .., List.subset_append_left ..⟩
  | struct fields =>
    change Onward s (type fields s).2
    have answers := typeAnswers unbuilt fields
    generalize type fields s = r at answers
    cases answers with
    | repeated _ | known _ _ => exact .refl unbuilt
    | registered _ _ _ _ => exact addedOnward unbuilt _
    | refused _ _ _ => exact announcedOnward unbuilt _

theorem askedOnward (unbuilt : s.built = false) (demands : List Demand) : Onward s (s.asked demands) := by
  induction demands generalizing s with
  | nil => exact .refl unbuilt
  | cons d demands ih =>
    have first := meetOnward unbuilt d
    exact first.trans (ih first.unbuilt)

theorem Backed.onward {s' : Session} {t : Ty} (backed : Backed s fields t) (onward : Onward s s') : Backed s' fields t := by
  obtain ⟨cls, made, is, there, registered⟩ := backed
  refine ⟨cls, made, is, ?_, onward.units registered⟩
  unfold Session.contains at there ⊢
  rw [List.contains_iff_mem] at there ⊢
  exact onward.names there

theorem addedBacked (s : Session) (fields : List (String × Ty)) :
    Backed (added s fields (nextUnit s fields)) fields (nextType s fields) := by
  refine ⟨unitName s.structCount, s.frames, rfl, ?_, List.mem_append_right _ List.mem_cons_self⟩
  have name : (nextUnit s fields).1.name = unitName s.structCount := (unitFresh s fields).name
  unfold Session.contains added
  rw [name, List.contains_iff_mem]
  exact List.mem_cons_self

def Kept (s₀ : Session) (history : List Demand) : Prop :=
  ∀ p ∈ (s₀.asked history).structs, Backed (s₀.asked history) p.1 p.2 ∨ Refused s₀ history p.1

theorem Kept.step (open_ : s₀.built = false) (kept : Kept s₀ history) (d : Demand) : Kept s₀ (history ++ [d]) := by
  have unbuilt := (askedOnward open_ history).unbuilt
  have onward := meetOnward unbuilt d
  have last : s₀.asked (history ++ [d]) = (s₀.asked history).meet d := Session.askedAppend s₀ history [d]
  unfold Kept at kept ⊢
  rw [last]
  generalize is : s₀.asked history = s at kept unbuilt onward
  have old : ∀ p ∈ s.structs, Backed (s.meet d) p.1 p.2 ∨ Refused s₀ (history ++ [d]) p.1 :=
    fun p inside => (kept p inside).imp (·.onward onward) (·.more [d])
  cases d with
  | unit u =>
    have same : (s.meet (.unit u)).structs = s.structs := by
      change (Build.addUnit u s).2.structs = _
      rcases addCases unbuilt u with ⟨_, err, failed⟩ | ⟨_, _, accepted⟩
      · rw [failed]
      · rw [accepted]
    rw [same]
    exact old
  | struct fields =>
    have made : s.meet (.struct fields) = (type fields s).2 := rfl
    rw [made] at old ⊢
    have answers := typeAnswers unbuilt fields
    generalize answer : type fields s = r at answers old
    cases answers with
    | repeated _ | known _ _ => exact old
    | registered _ _ _ _ =>
      have backed := addedBacked s fields
      generalize nextUnit s fields = u at backed old
      rintro p inside
      obtain before | new := List.mem_append.1 inside
      · exact old p before
      · rw [List.mem_singleton.1 new]
        exact .inl backed
    | refused _ _ _ =>
      have failed : Refused s₀ (history ++ [.struct fields]) fields := ⟨history, [], _, rfl, by rw [is, answer]⟩
      generalize nextUnit s fields = u at old
      rintro p inside
      obtain before | new := List.mem_append.1 inside
      · exact old p before
      · rw [List.mem_singleton.1 new]
        exact .inr failed

theorem Kept.run (open_ : s₀.built = false) (kept : Kept s₀ history) (later : List Demand) : Kept s₀ (history ++ later) := by
  induction later generalizing history with
  | nil =>
    rw [List.append_nil]
    exact kept
  | cons d later ih =>
    have rest := ih (kept.step open_ d)
    rwa [List.append_assoc, List.singleton_append] at rest

/-- Whatever was asked before, a struct type that is handed out names a registered unit that was generated for exactly its
fields, and goes on to do so, unless a request for these fields has failed. A request for fields of which one is repeated
changes nothing and so fails again. One whose unit is refused, for want of room or because its name is taken, registers
nothing, and the next one for the same fields is answered with a type. -/
theorem typesNameUnits (config : Config) (heap : Heap) (earlier later : List Demand) (fields : List (String × Ty)) :
    let new := Session.new config heap
    let before := new.asked earlier
    match type fields before with
    | (.ok t, s) => Refused new earlier fields ∨ Backed s fields t ∧ Backed (s.asked later) fields t
    | (.error err, s) =>
      (∃ name, repeated? [] (fields.map (·.1)) = some name ∧ s = before ∧ type fields s = (.error err, s)) ∨
      (before.Full ∨ before.contains (unitName before.structCount) = true) ∧
        s.units = before.units ∧ s.names = before.names ∧ ∃ t, type fields s = (.ok t, s) := by
  intro new before
  have unbuilt : before.built = false := (askedOnward rfl earlier).unbuilt
  have kept : Kept new earlier := Kept.run rfl (show Kept new [] by simp [Kept, Session.asked, new, Session.new]) earlier
  have answers := typeAnswers unbuilt fields
  generalize answer : type fields before = r at answers
  have lasting : ∀ s t, s.built = false → Backed s fields t → Backed s fields t ∧ Backed (s.asked later) fields t :=
    fun s t open_ backed => ⟨backed, backed.onward (askedOnward open_ later)⟩
  cases answers with
  | repeated clash => exact .inl ⟨_, clash, rfl, answer⟩
  | known _ found =>
    obtain ⟨front, back, same, _⟩ := List.lookup_eq_some_iff.1 found
    have inside := same ▸ List.mem_append_right front List.mem_cons_self
    exact (kept _ inside).symm.imp_right (lasting before _ unbuilt)
  | registered _ _ _ _ => exact .inr (lasting _ _ (addedOnward unbuilt _).unbuilt (addedBacked before fields))
  | refused apart new why =>
    refine .inr ⟨why, ?_⟩
    generalize nextUnit before fields = u
    refine ⟨rfl, rfl, nextType before fields, typeKnown unbuilt apart ?_⟩
    change (before.structs ++ [(fields, nextType before fields)]).lookup fields = _
    rw [List.lookup_append, new]
    simp

/-- With room for one unit the second struct type is refused, and then handed out without a unit. -/
theorem refusedTypeDangles :
    let s := (Session.new { Config.default with maxUnits := 1 } .empty).asked [.struct [("a", .int32)]]
    let first := type [("b", .int32)] s
    let second := type [("b", .int32)] first.2
    first.1.isOk = false ∧ second.1.toOption = some (.struct false "struct_1" [("b", .int32)]) ∧
      second.2.contains "struct_1" = false := by
  intro s first second
  exact ⟨by decide +kernel, by decide +kernel, by decide +kernel⟩

end Struct

end QueryMachine
