import QueryMachine.Ty.Registry

/-! What contexts hold. A registry learns one resolution at a time, and what it holds of value types is changed by
nothing else. -/
namespace QueryMachine.Registry

variable {r : Registry} {c d : ContextId} {t : ValueType} {type : Ty}

theorem valueInv (known : r.value? c t = some type) : ∃ d, (t, type) ∈ (r.context d).values := by
  unfold value? at known
  obtain ⟨x, inside, found⟩ := List.exists_of_findSome?_eq_some known
  obtain ⟨d, _, rfl⟩ := List.mem_map.1 inside
  obtain ⟨l₁, l₂, same, _⟩ := List.lookup_eq_some_iff.1 found
  exact ⟨d, by simp [same]⟩

theorem learnInv {p : ValueType × Ty} (inside : p ∈ ((r.learnValue c t type).context d).values) :
    p = (t, type) ∨ p ∈ (r.context d).values := by
  simp only [learnValue, context, Array.getD_eq_getD_getElem?, Array.getElem?_setIfInBounds] at inside ⊢
  split at inside
  · next same =>
    subst same
    split at inside
    · simpa using inside
    · simp at inside
  · exact .inr inside

theorem learnContext : (r.learnValue c t type).context d =
    if d = c ∧ c < r.contexts.size then { r.context c with values := (t, type) :: (r.context c).values } else r.context d := by
  unfold learnValue context
  simp only [Array.getD_eq_getD_getElem?, Array.getElem?_setIfInBounds]
  by_cases same : d = c
  · subst same
    by_cases low : d < r.contexts.size <;> simp [low]
  · simp [same, Ne.symm same]

theorem learnChain : (d :: ((r.learnValue c t type).context d).ancestors) = d :: (r.context d).ancestors := by
  rw [learnContext]
  split
  · next same => rw [same.1]
  · rfl

theorem learnSize (r : Registry) (c : ContextId) (t : ValueType) (type : Ty) :
    (r.learnValue c t type).contexts.size = r.contexts.size := Array.size_setIfInBounds

theorem learnSpares {u : ValueType} (apart : u ≠ t) : (r.learnValue c t type).value? d u = r.value? d u := by
  have differs : (u == t) = false := beq_eq_false_iff_ne.2 apart
  unfold value? chain
  rw [learnChain, List.findSome?_map, List.findSome?_map]
  congr 1
  funext i
  simp only [Function.comp_apply, learnContext]
  split
  · next same => rw [List.lookup_cons, differs, same.1]
  · rfl

theorem learnKnows (low : c < r.contexts.size) : (r.learnValue c t type).value? c t = some type := by
  unfold value? chain
  rw [List.map_cons, List.findSome?_cons, learnContext, if_pos ⟨rfl, low⟩, List.lookup_cons, beq_self_eq_true]

theorem childValues (d : ContextId) : ((r.child c).2.context d).values = (r.context d).values := by
  unfold child context
  simp only [Array.getD_eq_getD_getElem?, Array.getElem?_push]
  split
  · next last =>
    rw [last, Array.getElem?_eq_none (Nat.le_refl _)]
    rfl
  · rfl

theorem childContext : (r.child c).2.context (r.child c).1 = ⟨c :: (r.context c).ancestors, [], []⟩ := by
  unfold child context
  simp [Array.getD_eq_getD_getElem?]

theorem childHosts (d : ContextId) : ((r.child c).2.context d).hosts = (r.context d).hosts := by
  unfold child context
  simp only [Array.getD_eq_getD_getElem?, Array.getElem?_push]
  split
  · next last =>
    rw [last, Array.getElem?_eq_none (Nat.le_refl _)]
    rfl
  · rfl

theorem childFinds {α : Type} {f : Context → Option α} (blank : ∀ cs, f ⟨cs, [], []⟩ = none)
    (same : ∀ d, f ((r.child c).2.context d) = f (r.context d)) :
    ((r.child c).2.chain (r.child c).1).findSome? f = (r.chain c).findSome? f := by
  have each : f ∘ (r.child c).2.context = f ∘ r.context := funext same
  unfold chain
  rw [childContext, List.map_cons, List.findSome?_cons, childContext, blank, List.findSome?_map, List.findSome?_map, each]

theorem childKnows : (r.child c).2.value? (r.child c).1 t = r.value? c t :=
  childFinds (fun _ => rfl) fun d => by rw [childValues]

theorem childHears (h : HostType) : (r.child c).2.host? (r.child c).1 h = r.host? c h :=
  childFinds (fun _ => rfl) fun d => by rw [childHosts]

theorem learnHostValues (d : ContextId) (t : HostType) :
    ((r.learnHost c t type).context d).values = (r.context d).values := by
  simp only [learnHost, context, Array.getD_eq_getD_getElem?, Array.getElem?_setIfInBounds]
  split
  · next same =>
    subst same
    split
    · rfl
    · next beyond => rw [Array.getElem?_eq_none (Nat.le_of_not_lt beyond)]
  · rfl

def Apart {α : Type} (x : Resolving α) : Prop := ∀ r d, ((x r).2.context d).values = (r.context d).values

section

variable {α β : Type}

theorem apartPure (v : α) : Apart (pure v) := fun _ _ => rfl

theorem apartBind {x : Resolving α} {f : α → Resolving β} (first : Apart x) (second : ∀ v, Apart (f v)) :
    Apart (x >>= f) := by
  intro r d
  have before := first r d
  simp only [bind, ExceptT.bind, ExceptT.mk, StateT.bind]
  rcases answer : x r with ⟨err | v, r'⟩
  · rw [answer] at before
    exact before
  · rw [answer] at before
    exact (second v r' d).trans before

theorem apartMap {x : Resolving α} (f : α → β) (first : Apart x) : Apart (f <$> x) := by
  rw [← bind_pure_comp]
  exact apartBind first fun _ => apartPure _

end

mutual

theorem hostApart (t : HostType) : Apart (resolveHost c t) := by
  rw [resolveHost]
  split
  · exact apartPure _
  · refine apartBind (fun _ _ => rfl) ?_
    intro r
    split
    · exact apartPure _
    · have learn : ∀ type, Apart (do modify (·.learnHost c t type); return type : Resolving Ty) := by
        intro type r d
        exact learnHostValues d t
      cases t with
      | array e => exact apartBind (apartMap _ (hostApart e)) learn
      | list e => exact apartBind (apartMap _ (hostApart e)) learn
      | future e => exact apartBind (apartMap _ (hostApart e)) learn
      | provider e => exact apartBind (apartMap _ (hostApart e)) learn
      | map k v => exact apartBind (hostApart k) fun k => apartBind (apartMap _ (hostApart v)) learn
      | enum name variants => exact apartBind (apartPure _) learn
      | record => exact apartBind (apartPure _) learn
      | cls name properties comparable => exact apartBind (apartMap _ (propertiesApart properties)) learn
      | _ => exact fun _ _ => rfl

theorem propertiesApart (ps : List (String × HostType)) : Apart (resolveProperties c ps) := by
  cases ps with
  | nil =>
    rw [resolveProperties]
    exact apartPure _
  | cons p rest =>
    obtain ⟨name, t⟩ := p
    rw [resolveProperties]
    exact apartBind (hostApart t) fun type => apartBind (propertiesApart rest) fun _ => apartPure _

end

end QueryMachine.Registry
