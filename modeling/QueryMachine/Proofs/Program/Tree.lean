import QueryMachine.Proofs.Program.Blocks

/-! Lowering of whole operator trees: what is said of the code of every node, by induction over the tree. -/
namespace QueryMachine

open Build Conversion

mutual

def Node.Valued : Node → Prop
  | .mk _ args _ => Arg.ValuedAll args

def Arg.Valued : Arg → Prop
  | .node n => n.Valued
  | .nodes ns => Node.ValuedAll ns
  | .type t => t.Valued
  | .name _ | .names _ | .value _ => True

def Arg.ValuedAll : List Arg → Prop
  | [] => True
  | a :: rest => a.Valued ∧ Arg.ValuedAll rest

def Node.ValuedAll : List Node → Prop
  | [] => True
  | n :: rest => n.Valued ∧ Node.ValuedAll rest

end

namespace Lowering

structure Checks where
  cast : Ty → Ty → Bool
  key : Ty → Ty → Bool
  test : Ty → Bool

def Checks.none : Checks where
  cast _ _ := true
  key _ _ := true
  test _ := true

def applyWhere (may : Checks) (o : Operands) (location : Location) : Lowering := fun env =>
  match o.operator with
  | .index => o.binary env fun target key =>
    if may.key target.type key.type then Build.index env.frame target key
    else Build.fail (.incompatibleCast target.type.text key.type.text)
  | .cond => do
    let test ← o.node 0 env
    let yes ← o.node 1 env
    let no ← o.node 2 env
    if may.test test.type then Build.select [(test, yes)] no
    else Build.fail (.incompatibleCast "boolean" test.type.text)
  | .cast => do
    let value ← o.node 0 env
    match ← o.type? 1 env with
    | some type =>
      if may.cast type value.type then Build.cast value type
      else Build.fail (.incompatibleCast type.text value.type.text)
    | none => Build.fail (.invalidArgument "CAST requires a target type")
  | _ => apply o location env

mutual

def ofNodeWhere (may : Checks) : Node → Lowering
  | .mk operator args location => located location (applyWhere may ⟨operator, ofArgsWhere may args⟩ location)

def ofArgWhere (may : Checks) : Arg → Operand
  | .node n => .node (ofNodeWhere may n)
  | .nodes ns => .nodes (ofNodesWhere may ns)
  | .name s => .name s
  | .names ss => .names ss
  | .value v => .value v
  | .type t => .type t

def ofArgsWhere (may : Checks) : List Arg → List Operand
  | [] => []
  | a :: rest => ofArgWhere may a :: ofArgsWhere may rest

def ofNodesWhere (may : Checks) : List Node → List Lowering
  | [] => []
  | n :: rest => ofNodeWhere may n :: ofNodesWhere may rest

end

theorem applyAlways (o : Operands) (location : Location) :
    applyWhere Checks.none o location = apply o location := by
  obtain ⟨operator, args⟩ := o
  cases operator <;> rfl

mutual

theorem ofNodeAlways : ∀ n : Node, ofNodeWhere Checks.none n = ofNode n
  | .mk operator args location => by
    rw [ofNodeWhere, ofNode, ofArgsAlways args, applyAlways]

theorem ofArgAlways : ∀ a : Arg, ofArgWhere Checks.none a = ofArg a
  | .node n => by rw [ofArgWhere, ofArg, ofNodeAlways n]
  | .nodes ns => by rw [ofArgWhere, ofArg, ofNodesAlways ns]
  | .name _ => by rw [ofArgWhere, ofArg]
  | .names _ => by rw [ofArgWhere, ofArg]
  | .value _ => by rw [ofArgWhere, ofArg]
  | .type _ => by rw [ofArgWhere, ofArg]

theorem ofArgsAlways : ∀ args : List Arg, ofArgsWhere Checks.none args = ofArgs args
  | [] => by rw [ofArgsWhere, ofArgs]
  | a :: rest => by rw [ofArgsWhere, ofArgs, ofArgAlways a, ofArgsAlways rest]

theorem ofNodesAlways : ∀ ns : List Node, ofNodesWhere Checks.none ns = ofNodes ns
  | [] => by rw [ofNodesWhere, ofNodes]
  | n :: rest => by rw [ofNodesWhere, ofNodes, ofNodeAlways n, ofNodesAlways rest]

end

end Lowering

namespace Account

open Lowering (Operand Operands Env Checks)

variable {Z : Account} {s s' : Session} {items : List Local} {bound : String → Prop} {env : Env}

/-- What the nodes under a method can refer to is there: its parameters, and the elements of loops under the names of
`bound` and others. -/
structure Fits (Z : Account) (s : Session) (items : List Local) (bound : String → Prop) (env : Env) : Prop where
  frame : env.frame = Z.root
  arguments : ∀ x ∈ env.arguments, Z.param x.2 ∧ x.2.frame = Z.root ∧ s.frames.Has x.2
  bindings : ∀ x ∈ env.bindings, ∃ l ∈ items, x.2 = l.read ∧ s.frames.Has l
  bound : ∀ name, bound name → ∃ x, env.bindings.lookup name = some x
  locals : ∀ s', s.Later s' → ∀ name l, Z.named name → s'.frames.find? Z.root name = some l →
    Z.param l ∧ l.frame = Z.root ∧ s'.frames.Has l

theorem Fits.later (fits : Z.Fits s items bound env) (later : s.Later s') : Z.Fits s' items bound env where
  frame := fits.frame
  arguments x inside := by
    obtain ⟨param, frame, has⟩ := fits.arguments x inside
    exact ⟨param, frame, has.later later.frames⟩
  bindings x inside := by
    obtain ⟨l, member, read, has⟩ := fits.bindings x inside
    exact ⟨l, member, read, has.later later.frames⟩
  bound := fits.bound
  locals s'' more := fits.locals s'' (later.trans more)

def Lowers (Z : Account) (bound : String → Prop) (l : Lowering) : Prop :=
  ∀ s items env, s.Good → Z.Stands s items → Z.Fits s items bound env →
    Advances (l env) s fun x s' => Z.Lowered s' items x

def Given (Z : Account) (bound : String → Prop) : Operand → Prop
  | .node l => Z.Lowers bound l
  | .nodes ls => ∀ l ∈ ls, Z.Lowers bound l
  | .type t => t.Valued
  | .name _ | .names _ | .value _ => True

theorem readLowered {l : Local} (rules : Z.Compositional) (good : s.Good) (has : s.frames.Has l)
    (readable : Z.Readable items l) (inside : l.frame = Z.root ∨ l ∈ items) : Z.Lowered s items l.read := by
  refine loweredOf (localWrites (good.locals l has) ?_) rfl fun _ _ shape => rules.read readable shape
  intro fs σ visible
  obtain root | item := inside
  · exact visible.root l root (has.later visible.grows)
  · exact visible.items l item

theorem Lowers.widen {bound' : String → Prop} {l : Lowering} (lowers : Z.Lowers bound l)
    (more : ∀ name, bound name → bound' name) : Z.Lowers bound' l :=
  fun s items env good stands fits =>
    lowers s items env good stands { fits with bound := fun name is => fits.bound name (more name is) }

theorem eachAdvances {α : Type} {f : α → Build Expr} {l : List α} (rules : Z.Compositional) (good : s.Good)
    (each : ∀ a ∈ l, ∀ s', s.Later s' → s'.Good → Advances (f a) s' fun x s'' => Z.Lowered s'' items x) :
    Advances (l.mapM f) s fun xs s' => ∀ x ∈ xs, Z.Lowered s' items x := by
  induction l generalizing s with
  | nil => exact advancesPure good nofun
  | cons a l ih =>
    rw [List.mapM_cons]
    refine advancesBind (each a List.mem_cons_self s (.refl s) good) ?_
    intro x s₁ later good lowered
    refine advancesBind (ih good fun b inside s' more => each b (List.mem_cons_of_mem _ inside) s' (later.trans more)) ?_
    intro xs s₂ later good all
    refine advancesPure good ?_
    intro y inside
    obtain rfl | rest := List.mem_cons.1 inside
    · exact lowered.later rules later
    · exact all y rest

def boundAt (o : Operands) (bound : String → Prop) (i : Nat) (name : String) : Prop :=
  bound name ∨ o.operator = .transform ∧ i = 2 ∧ o.args[1]? = some (.name name)

structure Supplied (Z : Account) (bound : String → Prop) (o : Operands) : Prop where
  args : ∀ i a, o.args[i]? = some a → Z.Given (boundAt o bound i) a
  names : o.operator = .local → ∀ name, o.args[0]? = some (.name name) → bound name ∨ Z.named name

section

variable {o : Operands} (supplied : Z.Supplied bound o)

include supplied

theorem nodeAdvances (good : s.Good) (stands : Z.Stands s items) (fits : Z.Fits s items bound env) {i : Nat}
    (plain : o.operator ≠ .transform ∨ i < 2) : Advances (o.node i env) s fun x s' => Z.Lowered s' items x := by
  unfold Operands.node
  split
  · next l at_ =>
    have given : Z.Lowers (boundAt o bound i) l := supplied.args i _ at_
    refine given.widen ?_ s items env good stands fits
    intro name is
    obtain outer | ⟨transform, last, _⟩ := is
    · exact outer
    · obtain other | early := plain
      · contradiction
      · omega
  · exact advancesFail good rfl

theorem nodesAdvances (good : s.Good) (stands : Z.Stands s items) (fits : Z.Fits s items bound env)
    (rules : Z.Compositional) {i : Nat} (early : i < 2) :
    Advances (o.nodes i env) s fun xs s' => ∀ x ∈ xs, Z.Lowered s' items x := by
  unfold Operands.nodes
  split
  · next ls at_ =>
    have given : ∀ l ∈ ls, Z.Lowers (boundAt o bound i) l := supplied.args i _ at_
    refine eachAdvances rules good ?_
    intro l inside s' later good
    refine (given l inside).widen ?_ s' items env good (stands.later later) (fits.later later)
    intro name is
    obtain outer | ⟨_, last, _⟩ := is
    · exact outer
    · omega
  · exact advancesFail good rfl

theorem binaryAdvances (good : s.Good) (stands : Z.Stands s items) (fits : Z.Fits s items bound env)
    (rules : Z.Compositional) {combine : Expr → Expr → Build Expr}
    (combined : ∀ s' x y, s.Later s' → s'.Good → Z.Lowered s' items x → Z.Lowered s' items y →
      Advances (combine x y) s' fun r s'' => Z.Lowered s'' items r) :
    Advances (o.binary env combine) s fun x s' => Z.Lowered s' items x := by
  unfold Operands.binary
  refine advancesBind (nodeAdvances supplied good stands fits (.inr (by decide))) ?_
  intro x s₁ later₁ good left
  refine advancesBind (nodeAdvances supplied good (stands.later later₁) (fits.later later₁) (.inr (by decide))) ?_
  intro y s₂ later₂ good right
  exact combined s₂ x y (later₁.trans later₂) good (left.later rules later₂) right

theorem entriesAdvances (good : s.Good) (stands : Z.Stands s items) (fits : Z.Fits s items bound env)
    (rules : Z.Compositional) :
    Advances (o.entries env) s fun es s' => ∀ e ∈ es, Z.Lowered s' items e.2 := by
  unfold Operands.entries
  refine advancesBind (advancesSteady good (H := fun _ => True) ?_) ?_
  · unfold Operands.names
    split
    · exact steadyPure trivial
    · exact steadyFail rfl
  · intro names s₁ later good _
    refine advancesBind (nodesAdvances supplied good (stands.later later) (fits.later later) rules (by decide)) ?_
    intro values s₂ _ good all
    split
    · exact advancesFail good rfl
    · refine advancesPure good ?_
      intro e inside
      exact all e.2 (List.of_mem_zip inside).2

end

theorem nameSteady (o : Operands) (i : Nat) : Steady (o.name i) fun name => o.args[i]? = some (.name name) := by
  unfold Operands.name
  split
  · next name at_ => exact steadyPure at_
  · exact steadyFail rfl

theorem typeAdvances {o : Operands} (supplied : Z.Supplied bound o) (good : s.Good) (i : Nat) :
    Advances (o.type? i env) s fun t s' => ∀ type, t = some type → type.Regular s'.Knows := by
  unfold Operands.type?
  split
  · next t at_ =>
    refine advancesBind (Resolve.valueAdvances t (supplied.args i _ at_) good) ?_
    intro type s' _ good resolves
    exact advancesPure good fun _ is => Option.some.inj is ▸ resolves.regular
  · exact advancesPure good nofun
  · exact advancesFail good rfl

theorem lookupMember {β : Type} {l : List (String × β)} {name : String} {v : β} (found : l.lookup name = some v) :
    (name, v) ∈ l := by
  obtain ⟨l₁, l₂, same, _⟩ := List.lookup_eq_some_iff.1 found
  simp [same]

theorem argumentAdvances (good : s.Good) (fits : Z.Fits s items bound env) (rules : Z.Compositional) (name : String) :
    Advances (Lowering.argumentNamed name env) s fun x s' => Z.Lowered s' items x := by
  unfold Lowering.argumentNamed
  split
  · next l found =>
    obtain ⟨param, root, has⟩ := fits.arguments _ (lookupMember found)
    exact advancesPure good (readLowered rules good has (.inr param) (.inl root))
  · exact advancesFail good rfl

theorem localAdvances (good : s.Good) (fits : Z.Fits s items bound env) (rules : Z.Compositional) {name : String}
    (may : bound name ∨ Z.named name) :
    Advances (Lowering.localNamed name env) s fun x s' => Z.Lowered s' items x := by
  unfold Lowering.localNamed
  split
  · next x found =>
    obtain ⟨l, item, read, has⟩ := fits.bindings _ (lookupMember found)
    rw [show x = l.read from read]
    exact advancesPure good (readLowered rules good has (.inl item) (.inr item))
  · next missing =>
    have named : Z.named name := by
      obtain isBound | named := may
      · obtain ⟨x, found⟩ := fits.bound name isBound
        rw [missing] at found
        contradiction
      · exact named
    unfold Scope.find
    rw [bind_assoc]
    refine advancesGet ?_
    rw [fits.frame]
    split
    · next l found =>
      obtain ⟨param, root, has⟩ := fits.locals s (.refl s) name l named found
      exact advancesPure good (readLowered rules good has (.inr param) (.inl root))
    · exact advancesFail good rfl

theorem loopAdvances {o : Operands} (supplied : Z.Supplied bound o) (good : s.Good) (stands : Z.Stands s items)
    (fits : Z.Fits s items bound env) (rules : Z.Compositional) :
    Advances (Lowering.transform o env) s fun x s' => Z.Lowered s' items x := by
  unfold Lowering.transform
  refine advancesBind (nodeAdvances supplied good stands fits (.inr (by decide))) ?_
  intro iterable s₁ later₁ good operand
  refine advancesBind (advancesSteady good (nameSteady o 1)) ?_
  intro name s₂ later₂ good isName
  have later := later₁.trans later₂
  refine advancesBind (advancesSteady good (H := fun l => o.args[2]? = some (.node l)) ?_) ?_
  · unfold Operands.body
    split
    · next l at_ => exact steadyPure at_
    · exact steadyFail rfl
  · intro body s₃ later₃ good isBody
    have later := later.trans later₃
    have stands := stands.later later
    rw [fits.frame]
    refine transformAdvances rules good stands (operand.later rules (later₂.trans later₃)) ?_
    intro item s₄ later₄ good _ has stands
    have lowers : Z.Lowers (boundAt o bound 2) body := supplied.args 2 _ isBody
    refine lowers s₄ (item :: items) _ good stands ?_
    have fits := fits.later (later.trans later₄)
    exact {
      frame := rfl
      arguments := fits.arguments
      bindings := by
        intro x inside
        obtain rfl | outer := List.mem_cons.1 inside
        · exact ⟨item, List.mem_cons_self, rfl, has⟩
        · obtain ⟨l, member, read, has⟩ := fits.bindings x outer
          exact ⟨l, List.mem_cons_of_mem _ member, read, has⟩
      bound := by
        intro other is
        rw [List.lookup_cons]
        split
        · exact ⟨_, rfl⟩
        · next differ =>
          obtain outer | ⟨_, _, at_⟩ := is
          · exact fits.bound other outer
          · rw [isName] at at_
            cases at_
            simp at differ
      locals := fits.locals }

structure Covers (Z : Account) (may : Checks) : Prop where
  rules : Z.Compositional
  casts : ∀ type source, may.cast type source = true → Z.castable type source
  keys : ∀ target key, may.key target key = true → ∀ a, IndexAccess.of? target = some a →
    castOps? a.keyType key = none → ∀ c d, Z.refuses (.of (.incompatibleCast c d))
  tests : ∀ t, may.test t = true → t.truth? = none → ∀ a b, Z.refuses (.of (.incompatibleCast a b))

theorem applyLowers {may : Checks} {o : Operands} {location : Location} (covers : Z.Covers may)
    (supplied : Z.Supplied bound o) : Z.Lowers bound (Lowering.applyWhere may o location) := by
  have rules := covers.rules
  intro s items env good stands fits
  have operand (i : Nat) (early : i < 2) : Advances (o.node i env) s fun x s' => Z.Lowered s' items x :=
    nodeAdvances supplied good stands fits (.inr early)
  have operands : Advances (o.nodes 0 env) s fun xs s' => ∀ x ∈ xs, Z.Lowered s' items x :=
    nodesAdvances supplied good stands fits rules (by decide)
  have steady {b : Build Expr} {s' : Session} (good : s'.Good) (made : Steady b (Z.Lowered s' items)) :
      Advances b s' fun x s'' => Z.Lowered s'' items x := advancesLowered rules good made
  unfold Lowering.applyWhere Lowering.apply
  cases operator : o.operator with
  | literal =>
    refine advancesBind (advancesSteady good (H := fun _ => True) ?_) fun v s₁ _ good _ =>
      constantLowered rules good v
    unfold Operands.value
    split
    · exact steadyPure trivial
    · exact steadyFail rfl
  | null =>
    refine advancesBind (typeAdvances supplied good 0) ?_
    intro t s₁ _ good regular
    refine advancesPure good (nullLowered rules ?_)
    cases t with
    | none => exact .atom
    | some type => exact regular type rfl
  | array => exact advancesBind operands fun xs s₁ _ good all => advancesPure good (listLowered rules all)
  | map =>
    refine advancesBind (entriesAdvances supplied good stands fits rules) ?_
    intro es s₁ later₁ good all
    have keyed : Advances (es.mapM fun entry => Build.constant (.string entry.1)) s₁ fun keys s' =>
        ∀ key ∈ keys, Z.Lowered s' items key :=
      eachAdvances rules good fun _ _ _ _ good => constantLowered rules good _
    refine advancesBind keyed ?_
    intro keys s₂ later₂ good isKey
    refine advancesPure good (mapLowered rules ?_ ?_)
    · intro x inside
      exact isKey x.1 (List.of_mem_zip inside).1
    · intro x inside
      obtain ⟨e, member, is⟩ := List.mem_map.1 (List.of_mem_zip inside).2
      rw [← is]
      exact (all e member).later rules later₂
  | record =>
    refine advancesBind (entriesAdvances supplied good stands fits rules) ?_
    intro es s₁ later good all
    exact recordAdvances rules good (stands.later later) fits.frame all
  | property =>
    refine advancesBind (operand 0 (by decide)) ?_
    intro target s₁ later₁ good target
    refine advancesBind (advancesSteady good (nameSteady o 1)) ?_
    intro name s₂ later₂ good _
    rw [fits.frame]
    exact propertyAdvances rules good (stands.later (later₁.trans later₂)) (target.later rules later₂)
  | index =>
    rw [fits.frame]
    refine binaryAdvances supplied good stands fits rules fun s' x y later good left right => ?_
    split
    · next admitted => exact indexAdvances rules good (stands.later later) left right (covers.keys _ _ admitted)
    · exact advancesFail good rfl
  | add | sub | mult | div | mod =>
    exact binaryAdvances supplied good stands fits rules fun s' x y _ good left right =>
      steady good (arithmeticLowered rules left right)
  | negate => exact advancesBind (operand 0 (by decide)) fun x s₁ _ good is => steady good (negateLowered rules is)
  | not => exact advancesBind (operand 0 (by decide)) fun x s₁ _ good is => steady good (notLowered rules is)
  | and => exact advancesBind operands fun xs s₁ _ good all => steady good (andLowered rules all)
  | or => exact advancesBind operands fun xs s₁ _ good all => steady good (orLowered rules all)
  | eq | neq =>
    exact binaryAdvances supplied good stands fits rules fun s' x y _ good left right =>
      advancesPure good (equalityLowered rules left right)
  | lt | ltEq | gt | gtEq =>
    exact binaryAdvances supplied good stands fits rules fun s' x y _ good left right =>
      advancesPure good (orderedLowered rules left right)
  | compare =>
    exact binaryAdvances supplied good stands fits rules fun s' x y _ good left right =>
      advancesPure good (compareLowered rules left right)
  | isNull => exact advancesBind (operand 0 (by decide)) fun x s₁ _ good is => advancesPure good (isNullLowered rules is)
  | coalesce => exact advancesBind operands fun xs s₁ _ good all => steady good (coalesceLowered rules all)
  | cond =>
    refine advancesBind (operand 0 (by decide)) ?_
    intro test s₁ later₁ good test
    refine advancesBind (nodeAdvances supplied good (stands.later later₁) (fits.later later₁) (.inr (by decide))) ?_
    intro yes s₂ later₂ good yes
    have later := later₁.trans later₂
    refine advancesBind (nodeAdvances supplied good (stands.later later) (fits.later later) (.inl (by rw [operator]; decide))) ?_
    intro no s₃ later₃ good no
    split
    · next admitted =>
      exact steady good (selectLowered rules (test.later rules (later₂.trans later₃)) (yes.later rules later₃) no
        (covers.tests _ admitted))
    · exact advancesFail good rfl
  | «local» =>
    refine advancesBind (advancesSteady good (nameSteady o 0)) ?_
    intro name s₁ later good isName
    exact localAdvances good (fits.later later) rules (supplied.names operator name isName)
  | argument =>
    refine advancesBind (advancesSteady good (nameSteady o 0)) ?_
    intro name s₁ later good _
    exact argumentAdvances good (fits.later later) rules name
  | transform => exact loopAdvances supplied good stands fits rules
  | length =>
    refine advancesBind (operand 0 (by decide)) ?_
    intro target s₁ later good target
    rw [fits.frame]
    exact lengthAdvances rules good (stands.later later) target
  | resolve =>
    refine advancesBind (operand 0 (by decide)) ?_
    intro target s₁ later good target
    rw [fits.frame]
    exact resolveAdvances good target
  | cast =>
    refine advancesBind (operand 0 (by decide)) ?_
    intro value s₁ later₁ good value
    refine advancesBind (typeAdvances supplied good 1) ?_
    intro t s₂ later₂ good regular
    cases t with
    | none => exact advancesFail good rfl
    | some type =>
      dsimp only
      split
      · next admitted => exact steady good (castLowered rules (regular type rfl) (covers.casts _ _ admitted) (value.later rules later₂))
      · exact advancesFail good rfl
  | call | invoke | subquery => exact advancesFail good rfl

theorem tryLocated {α : Type} {x : Build α} (s : Session) (location : Location) :
    (tryCatch x fun e => throw (e.locate location)) s = match x s with
      | (.ok v, s') => (.ok v, s')
      | (.error err, s') => (.error (err.locate location), s') := by
  rcases answer : x s with ⟨err | v, s'⟩ <;>
    simp only [tryCatch, tryCatchThe, MonadExceptOf.tryCatch, ExceptT.tryCatch, ExceptT.mk, bind, StateT.bind, answer] <;>
    rfl

theorem locateCause (err : Error) (location : Location) : (err.locate location).cause = err.cause := by
  unfold Error.locate
  split <;> rfl

theorem locatedAdvances {l : Lowering} {P : Expr → Session → Prop} (location : Location) (made : Advances (l env) s P) :
    Advances (Lowering.located location l env) s P := by
  unfold Lowering.located
  split
  · exact made
  · unfold Advances Ends at made ⊢
    rw [tryLocated]
    rcases answer : l env s with ⟨err | x, s'⟩
    · rw [answer] at made
      obtain ⟨refusal, kept⟩ := made
      exact ⟨(congrArg Cause.isInternal (locateCause err location)).trans refusal, kept⟩
    · rw [answer] at made
      exact made

theorem locatedLowers {l : Lowering} (location : Location) (lowers : Z.Lowers bound l) :
    Z.Lowers bound (Lowering.located location l) :=
  fun s items env good stands fits => locatedAdvances location (lowers s items env good stands fits)

end Account

mutual

def Node.Scoped (named : String → Prop) : Node → Prop
  | .mk .local args _ => (∀ name, args[0]? = some (.name name) → named name) ∧ Arg.ScopedAll named args
  | .mk .transform (source :: .name item :: body :: rest) _ =>
    source.Scoped named ∧ body.Scoped (fun name => named name ∨ name = item) ∧ Arg.ScopedAll named rest
  | .mk _ args _ => Arg.ScopedAll named args

def Arg.Scoped (named : String → Prop) : Arg → Prop
  | .node n => n.Scoped named
  | .nodes ns => Node.ScopedAll named ns
  | .name _ | .names _ | .value _ | .type _ => True

def Arg.ScopedAll (named : String → Prop) : List Arg → Prop
  | [] => True
  | a :: rest => a.Scoped named ∧ Arg.ScopedAll named rest

def Node.ScopedAll (named : String → Prop) : List Node → Prop
  | [] => True
  | n :: rest => n.Scoped named ∧ Node.ScopedAll named rest

end

namespace Account

open Lowering (ofNodeWhere ofArgWhere ofArgsWhere ofNodesWhere Operand Operands Checks)

variable {Z : Account} {may : Checks}

theorem Given.widen {bound bound' : String → Prop} {a : Operand} (given : Z.Given bound a)
    (more : ∀ name, bound name → bound' name) : Z.Given bound' a := by
  cases a with
  | node l => exact Lowers.widen given more
  | nodes ls => exact fun l inside => (given l inside).widen more
  | _ => exact given

theorem suppliedOf {bound : String → Prop} {o : Operands} (args : ∀ a ∈ o.args, Z.Given bound a)
    (names : o.operator = .local → ∀ name, o.args[0]? = some (.name name) → bound name ∨ Z.named name) :
    Z.Supplied bound o where
  args _ a at_ := (args a (List.mem_of_getElem? at_)).widen fun _ is => .inl is
  names := names

theorem argName {args : List Arg} {name : String} (at_ : (ofArgsWhere may args)[0]? = some (.name name)) :
    args[0]? = some (.name name) := by
  cases args with
  | nil =>
    rw [ofArgsWhere] at at_
    contradiction
  | cons a rest =>
    rw [ofArgsWhere] at at_
    cases a <;> rw [ofArgWhere] at at_ <;> cases at_
    rfl

mutual

theorem ofNodeLowers (covers : Z.Covers may) (n : Node) (valued : n.Valued) {named bound : String → Prop}
    (isScoped : n.Scoped named) (known : ∀ name, named name → bound name ∨ Z.named name) :
    Z.Lowers bound (ofNodeWhere may n) := by
  match n with
  | .mk operator args location =>
  rw [Node.Valued] at valued
  rw [ofNodeWhere]
  refine locatedLowers location (applyLowers covers ?_)
  unfold Node.Scoped at isScoped
  split at isScoped
  · next same =>
    cases same
    refine suppliedOf (ofArgsGiven covers args valued isScoped.2 known) ?_
    intro _ name at_
    refine known name (isScoped.1 name ?_)
    exact argName at_
  · next source item body rest _ same =>
    cases same
    rw [Arg.ValuedAll, Arg.ValuedAll, Arg.ValuedAll] at valued
    obtain ⟨validSource, _, validBody, validRest⟩ := valued
    obtain ⟨scopedSource, scopedBody, scopedRest⟩ := isScoped
    have first := ofArgGiven covers source validSource scopedSource known
    have others := ofArgsGiven covers rest validRest scopedRest known
    have inner : Z.Given (fun name => bound name ∨ name = item) (ofArgWhere may body) :=
      ofArgGiven covers body validBody scopedBody fun name is =>
        is.elim (fun outer => (known name outer).imp_left .inl) fun here => .inl (.inr here)
    refine ⟨?_, nofun⟩
    intro i a at_
    simp only [ofArgsWhere] at at_
    match i, at_ with
    | 0, at_ =>
      cases at_
      exact first.widen fun _ is => .inl is
    | 1, at_ =>
      cases at_
      rw [ofArgWhere]
      trivial
    | 2, at_ =>
      cases at_
      refine inner.widen ?_
      intro name is
      refine is.imp_right fun here => ⟨rfl, rfl, ?_⟩
      subst here
      simp [ofArgsWhere, ofArgWhere]
    | i + 3, at_ => exact (others a (List.mem_of_getElem? at_)).widen fun _ is => .inl is
  · next plain _ same =>
    cases same
    exact suppliedOf (ofArgsGiven covers args valued isScoped known) fun isLocal => (plain isLocal).elim
termination_by sizeOf n

theorem ofArgGiven (covers : Z.Covers may) (a : Arg) (valued : a.Valued) {named bound : String → Prop}
    (isScoped : a.Scoped named) (known : ∀ name, named name → bound name ∨ Z.named name) :
    Z.Given bound (ofArgWhere may a) := by
  cases a with
  | node n =>
    rw [ofArgWhere]
    rw [Arg.Valued] at valued
    rw [Arg.Scoped] at isScoped
    exact ofNodeLowers covers n valued isScoped known
  | nodes ns =>
    rw [ofArgWhere]
    rw [Arg.Valued] at valued
    rw [Arg.Scoped] at isScoped
    exact ofNodesLower covers ns valued isScoped known
  | type t =>
    rw [ofArgWhere]
    rw [Arg.Valued] at valued
    exact valued
  | _ =>
    rw [ofArgWhere]
    trivial
termination_by sizeOf a

theorem ofArgsGiven (covers : Z.Covers may) (args : List Arg) (valued : Arg.ValuedAll args) {named bound : String → Prop}
    (isScoped : Arg.ScopedAll named args) (known : ∀ name, named name → bound name ∨ Z.named name) :
    ∀ a ∈ ofArgsWhere may args, Z.Given bound a := by
  cases args with
  | nil =>
    rw [ofArgsWhere]
    exact nofun
  | cons a rest =>
    rw [ofArgsWhere]
    rw [Arg.ValuedAll] at valued
    rw [Arg.ScopedAll] at isScoped
    rw [List.forall_mem_cons]
    exact ⟨ofArgGiven covers a valued.1 isScoped.1 known, ofArgsGiven covers rest valued.2 isScoped.2 known⟩
termination_by sizeOf args

theorem ofNodesLower (covers : Z.Covers may) (ns : List Node) (valued : Node.ValuedAll ns) {named bound : String → Prop}
    (isScoped : Node.ScopedAll named ns) (known : ∀ name, named name → bound name ∨ Z.named name) :
    ∀ l ∈ ofNodesWhere may ns, Z.Lowers bound l := by
  cases ns with
  | nil =>
    rw [ofNodesWhere]
    exact nofun
  | cons n rest =>
    rw [ofNodesWhere]
    rw [Node.ValuedAll] at valued
    rw [Node.ScopedAll] at isScoped
    rw [List.forall_mem_cons]
    exact ⟨ofNodeLowers covers n valued.1 isScoped.1 known, ofNodesLower covers rest valued.2 isScoped.2 known⟩
termination_by sizeOf ns

end

end Account

end QueryMachine
