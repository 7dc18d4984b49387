import QueryMachine.Proofs.Session
import QueryMachine.Proofs.Ty.Registry
import QueryMachine.Resolve

/-! Resolution of types of which no part is known yet. Whatever else they know, it goes the same way in any two contexts. -/
namespace QueryMachine

namespace ValueType

mutual

def parts : ValueType → List ValueType
  | .scalar _ => []
  | .array t => .array t :: parts t
  | .map k v => .map k v :: (parts k ++ parts v)
  | .struct true fs => .struct true fs :: fieldParts fs
  | .optional t => .optional t :: parts t
  | .union ts => .union ts :: memberParts ts
  | t => [t]

def fieldParts : List (String × ValueType) → List ValueType
  | [] => []
  | (_, t) :: rest => parts t ++ fieldParts rest

def memberParts : List ValueType → List ValueType
  | [] => []
  | t :: rest => parts t ++ memberParts rest

end

end ValueType

def Session.knowing (s : Session) (types : Registry) : Session := { s with types }

structure Session.Beside (P : ValueType → Prop) (c c' : ContextId) (s s' : Session) : Prop where
  rest : s' = s.knowing s'.types
  alike : ∀ t, P t → s'.types.value? c' t = s.types.value? c t
  there : c < s.types.contexts.size
  there' : c' < s'.types.contexts.size

def Matches {α : Type} (P : ValueType → Prop) (c c' : ContextId) (x x' : Build α) : Prop :=
  ∀ s s', Session.Beside P c c' s s' → (x' s').1 = (x s).1 ∧ Session.Beside P c c' (x s).2 (x' s').2

section

variable {α β : Type} {P : ValueType → Prop} {c c' : ContextId}

theorem matchesPure (v : α) : Matches P c c' (pure v) (pure v) := fun _ _ beside => ⟨rfl, beside⟩

theorem Matches.bind {x x' : Build α} {f f' : α → Build β} (first : Matches P c c' x x')
    (second : ∀ v, Matches P c c' (f v) (f' v)) : Matches P c c' (x >>= f) (x' >>= f') := by
  intro s s' beside
  obtain ⟨same, after⟩ := first s s' beside
  rcases answer : x s with ⟨err | v, t⟩ <;> rcases answer' : x' s' with ⟨err' | v', t'⟩ <;>
    rw [answer, answer'] at same after
  · cases same
    rw [Build.bindError answer, Build.bindError answer']
    exact ⟨rfl, after⟩
  · cases same
  · cases same
  · cases same
    rw [Build.bindOk answer, Build.bindOk answer']
    exact second v t t' after

theorem matchesLift (x : Except Error α) : Matches P c c' (Build.lift x) (Build.lift x) := by
  cases x with
  | ok v => exact matchesPure v
  | error err => exact fun _ _ beside => ⟨rfl, beside⟩

def Blind (x : Build α) : Prop := ∀ s types, x (s.knowing types) = ((x s).1, (x s).2.knowing types)

theorem blindPure (v : α) : Blind (pure v) := fun _ _ => rfl

theorem blindFail (cause : Cause) : Blind (Build.fail cause : Build α) := fun _ _ => rfl

theorem Blind.bind {x : Build α} {f : α → Build β} (first : Blind x) (second : ∀ v, Blind (f v)) : Blind (x >>= f) := by
  intro s types
  have away := first s types
  rcases answer : x s with ⟨err | v, t⟩
  · rw [answer] at away
    rw [Build.bindError away, Build.bindError answer]
  · rw [answer] at away
    rw [Build.bindOk away, Build.bindOk answer]
    exact second v t types

theorem blindGet {f : Session → Build β} (each : ∀ s types, f (s.knowing types) (s.knowing types) =
    ((f s s).1, (f s s).2.knowing types)) : Blind (get >>= f) := each

theorem blindIf {p : Prop} [Decidable p] {x y : Build α} (first : Blind x) (second : Blind y) : Blind (if p then x else y) := by
  split
  · exact first
  · exact second

theorem blindOpen : Blind Build.checkOpen :=
  blindGet fun s types => blindIf (p := s.built = true) (blindFail _) (fun _ _ => rfl) s types

theorem blindAdd (u : UnitDraft) : Blind (Build.addUnit u) := by
  refine blindOpen.bind fun _ => blindGet fun s types => ?_
  by_cases full : s.config.maxUnits ≤ s.units.length
  · rw [if_pos full, if_pos (show (s.knowing types).config.maxUnits ≤ (s.knowing types).units.length from full)]
    rfl
  · rw [if_neg full, if_neg (show ¬ (s.knowing types).config.maxUnits ≤ (s.knowing types).units.length from full)]
    by_cases there : s.contains u.name = true
    · rw [if_pos there, if_pos (show (s.knowing types).contains u.name = true from there)]
      rfl
    · rw [if_neg there, if_neg (show ¬ (s.knowing types).contains u.name = true from there)]
      rfl

theorem Blind.matched {x : Build α} (blind : Blind x) : Matches P c c' x x := by
  intro s s' beside
  have away := blind s s'.types
  have kept : (x s).2.types = s.types := congrArg (·.2.types) (blind s s.types)
  rw [← beside.rest] at away
  rw [away]
  refine ⟨rfl, rfl, fun t strange => ?_, ?_, beside.there'⟩
  · rw [kept]
    exact beside.alike t strange
  · rw [kept]
    exact beside.there

end

theorem Struct.typeBlind (fields : List (String × Ty)) : Blind (type fields) := by
  refine blindOpen.bind fun _ => ?_
  cases repeated? [] (fields.map (·.1)) with
  | some name => exact blindFail _
  | none =>
    refine blindGet fun s types => ?_
    rw [show (s.knowing types).structs = s.structs from rfl]
    cases s.structs.lookup fields with
    | some t => rfl
    | none =>
      rw [show (s.knowing types).structCount = s.structCount from rfl, show (s.knowing types).frames = s.frames from rfl]
      dsimp only
      generalize unit (unitStem ++ toString s.structCount) fields (.struct false (unitStem ++ toString s.structCount) fields)
        s.frames = made
      obtain ⟨u, frames⟩ := made
      have last : Blind (do
          Build.addUnit u
          return nextType s fields) := (blindAdd u).bind fun _ => blindPure _
      exact last { s with frames, structs := s.structs ++ [(fields, nextType s fields)], structCount := s.structCount + 1 } types

namespace Resolve

variable {P : ValueType → Prop} {c c' : ContextId} {t : ValueType}

theorem makeMatches {x x' : Build Ty} (strange : P t) (made : Matches P c c' x x') :
    Matches P c c'
      (do
        match (← get).types.value? c t with
        | some type => return type
        | none => x)
      (do
        match (← get).types.value? c' t with
        | some type => return type
        | none => x') := by
  intro s s' beside
  have open_ (c : ContextId) (x : Build Ty) (s : Session) : (do
      match (← get).types.value? c t with
      | some type => return type
      | none => x : Build Ty) s = (match s.types.value? c t with
        | some type => pure type
        | none => x : Build Ty) s := rfl
  rw [open_, open_, beside.alike t strange]
  cases s.types.value? c t with
  | some type => exact ⟨rfl, beside⟩
  | none => exact made s s' beside

theorem learnMatches (t : ValueType) (type : Ty) :
    Matches P c c'
      (do
        modify fun s => { s with types := s.types.learnValue c t type }
        return type : Build Ty)
      (do
        modify fun s => { s with types := s.types.learnValue c' t type }
        return type : Build Ty) := by
  intro s s' beside
  have rest := beside.rest
  refine ⟨rfl, ?_, fun u strange => ?_, ?_, ?_⟩
  · change s'.knowing _ = _
    rw [rest]
    rfl
  · by_cases same : u = t
    · subst same
      exact (Registry.learnKnows beside.there').trans (Registry.learnKnows beside.there).symm
    · exact (Registry.learnSpares same).trans ((beside.alike u strange).trans (Registry.learnSpares same).symm)
  · exact Nat.lt_of_lt_of_eq beside.there (Registry.learnSize ..).symm
  · exact Nat.lt_of_lt_of_eq beside.there' (Registry.learnSize ..).symm

theorem rememberMatches (t : ValueType) (type : Ty) :
    Matches P c c'
      (do
        let type ← pure type
        modify fun s => { s with types := s.types.learnValue c t type }
        return type : Build Ty)
      (do
        let type ← pure type
        modify fun s => { s with types := s.types.learnValue c' t type }
        return type : Build Ty) := (matchesPure type).bind fun _ => learnMatches t _

mutual

theorem valueMatches (t : ValueType) (strange : ∀ u ∈ t.parts, P u) : Matches P c c' (value c t) (value c' t) := by
  cases t with
  | scalar p =>
    rw [value, value]
    exact matchesPure _
  | void | string | bytes | timestamp | any =>
    rw [value.eq_2, value.eq_2]
    · exact makeMatches (strange _ List.mem_cons_self) (rememberMatches _ _)
    · exact nofun
    · exact nofun
  | array e =>
    rw [ValueType.parts, List.forall_mem_cons] at strange
    rw [value.eq_2, value.eq_2]
    · exact makeMatches strange.1 ((valueMatches e strange.2).bind fun _ => rememberMatches _ _)
    · exact nofun
    · exact nofun
  | map k v =>
    rw [ValueType.parts, List.forall_mem_cons, List.forall_mem_append] at strange
    rw [value.eq_2, value.eq_2]
    · refine makeMatches strange.1 ((valueMatches k strange.2.1).bind fun _ => ?_)
      exact (valueMatches v strange.2.2).bind fun _ => rememberMatches _ _
    · exact nofun
    · exact nofun
  | struct closed fs =>
    rw [value.eq_2, value.eq_2]
    · cases closed with
      | false => exact makeMatches (strange _ List.mem_cons_self) (rememberMatches _ _)
      | true =>
        rw [ValueType.parts, List.forall_mem_cons] at strange
        refine makeMatches strange.1 ((fieldsMatch fs strange.2).bind fun types => ?_)
        exact (Struct.typeBlind types).matched.bind fun _ => rememberMatches _ _
    · exact nofun
    · exact nofun
  | optional t =>
    rw [ValueType.parts, List.forall_mem_cons] at strange
    rw [value.eq_2, value.eq_2]
    · exact makeMatches strange.1 ((valueMatches t strange.2).bind fun _ => rememberMatches _ _)
    · exact nofun
    · exact nofun
  | union ts =>
    rw [ValueType.parts, List.forall_mem_cons] at strange
    rw [value.eq_2, value.eq_2]
    · refine makeMatches strange.1 ((membersMatch ts strange.2).bind fun types => ?_)
      exact (matchesLift _).bind fun _ => learnMatches _ _
    · exact nofun
    · exact nofun

theorem fieldsMatch (fs : List (String × ValueType)) (strange : ∀ u ∈ ValueType.fieldParts fs, P u) :
    Matches P c c' (fields c fs) (fields c' fs) := by
  cases fs with
  | nil =>
    rw [fields, fields]
    exact matchesPure _
  | cons f rest =>
    obtain ⟨name, t⟩ := f
    rw [ValueType.fieldParts, List.forall_mem_append] at strange
    rw [fields.eq_2, fields.eq_2]
    refine (valueMatches t strange.1).bind fun _ => ?_
    exact (fieldsMatch rest strange.2).bind fun _ => matchesPure _

theorem membersMatch (ts : List ValueType) (strange : ∀ u ∈ ValueType.memberParts ts, P u) :
    Matches P c c' (members c ts) (members c' ts) := by
  cases ts with
  | nil =>
    rw [members, members]
    exact matchesPure _
  | cons t rest =>
    rw [ValueType.memberParts, List.forall_mem_append] at strange
    rw [members.eq_2, members.eq_2]
    refine (valueMatches t strange.1).bind fun _ => ?_
    exact (membersMatch rest strange.2).bind fun _ => matchesPure _

end

end Resolve
end QueryMachine
