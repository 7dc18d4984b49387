import QueryMachine.Program.Operator
import QueryMachine.Proofs.Scalar.Operands

/-! Formulas: operator trees of integers and booleans, with the scalar and the value of each. -/
namespace QueryMachine

open Machine.Thread (resultScalar)

namespace Prim

def wider (p q : Prim) : Prim := if p.kind.rank < q.kind.rank then q else p

def isWhole (p : Prim) : Bool := p.isInteger || p == .boolean

def Alike (p q : Prim) : Prop := p.isInteger ∧ q.isInteger ∨ p = .boolean ∧ q = .boolean

variable {p q : Prim}

theorem widerInto (alike : p.Alike q) : p.Into (p.wider q) ∧ q.Into (p.wider q) := by
  unfold wider Into
  obtain ⟨first, second⟩ | ⟨rfl, rfl⟩ := alike
  · split
    · next less => exact ⟨.inr ⟨first, second, Nat.le_of_lt less⟩, .inl rfl⟩
    · next not => exact ⟨.inl rfl, .inr ⟨second, first, Nat.le_of_not_lt not⟩⟩
  · exact ⟨.inl rfl, .inl rfl⟩

theorem widerSame (p : Prim) : p.wider p = p := ite_self p

theorem widerInteger (first : p.isInteger) (second : q.isInteger) : (p.wider q).isInteger := by
  unfold wider
  split
  · exact second
  · exact first

end Prim

def Form.join : Form → Form → Form
  | raw, raw => raw
  | nullable, _ => nullable
  | _, nullable => nullable
  | _, _ => boxed

namespace Scalar

def join (a b : Scalar) : Scalar := ⟨a.kind.wider b.kind, a.form.join b.form⟩

variable {a b : Scalar} {p q : Prim}

theorem joinAlike {parts l r : Ty} (left : l.kind = p.kind) (right : r.kind = q.kind) (alike : p.Alike q) :
    Ty.join parts l r = if p.kind.rank < q.kind.rank then r else l := by
  unfold Ty.join
  rw [left, right]
  obtain ⟨first, second⟩ | ⟨rfl, rfl⟩ := alike
  · cases p <;> first | contradiction | (cases q <;> first | contradiction | simp [Prim.kind, Kind.isInteger, Kind.rank])
  · simp [Prim.kind, Kind.isInteger, Kind.isFloat, Kind.isNumeric, Kind.rank]

theorem unifyIs (alike : a.kind.Alike b.kind) : Ty.unify a.type b.type = (a.join b).type := by
  obtain ⟨p, first⟩ := a
  obtain ⟨q, second⟩ := b
  unfold Ty.unify join Prim.wider
  cases first <;> cases second <;>
    simp only [type, Ty.isPrimitive, Ty.boxed, Ty.boxedOf, Ty.isNullable, Bool.and_true, Bool.and_false,
      Bool.or_self, Bool.or_true, Bool.true_or, Bool.false_eq_true, if_true, if_false] <;>
    rw [joinAlike (p := p) (q := q) rfl rfl alike] <;> split <;> rfl

theorem unifyApart (first : a.kind.isWhole) (second : b.kind.isWhole) (apart : ¬ a.kind.Alike b.kind) :
    ∃ n, Ty.unify a.type b.type = .atom n .any := by
  obtain ⟨p, form⟩ := a
  obtain ⟨q, form'⟩ := b
  have different : p ≠ q := by
    rintro rfl
    apply apart
    rw [Prim.isWhole, Bool.or_eq_true, beq_iff_eq] at first
    exact first.imp (fun h => ⟨h, h⟩) fun h => ⟨h, h⟩
  have joined : ∀ parts l r, l.kind = p.kind → r.kind = q.kind → l.rep ≠ r.rep → Ty.join parts l r = .any := by
    intro parts l r left right reps
    simp only [Ty.join, left, right, reps, if_false]
    cases p <;> first | contradiction | (cases q <;> first | contradiction | rfl | exact absurd (.inl ⟨rfl, rfl⟩) apart)
  have boxes : ∀ m n, (Ty.atom m (.boxed p)).rep ≠ (Ty.atom n (.boxed q)).rep := by
    intro m n same
    exact different (boxClassInj.1 (Rep.ref.inj same))
  unfold Ty.unify
  cases form <;> cases form' <;>
    simp only [type, Ty.isPrimitive, Ty.boxed, Ty.boxedOf, Bool.and_true, Bool.and_false, Bool.false_eq_true, if_true,
      if_false]
  · rw [joined _ _ _ rfl rfl (by simpa [Ty.rep] using different)]
    exact ⟨_, rfl⟩
  all_goals
    rw [joined _ _ _ rfl rfl (boxes _ _)]
    exact ⟨_, rfl⟩

theorem numericIs (first : a.kind.isWhole) (second : b.kind.isWhole)
    (numeric : Operands.numeric? a.type b.type = some p) :
    a.kind.isInteger ∧ b.kind.isInteger ∧ p = a.kind.wider b.kind := by
  unfold Operands.numeric? at numeric
  by_cases alike : a.kind.Alike b.kind
  · simp only [unifyIs alike, typePrim] at numeric
    split at numeric
    · contradiction
    next number =>
    cases numeric
    unfold join at number
    obtain ⟨left, right⟩ | ⟨left, right⟩ := alike
    · exact ⟨left, right, rfl⟩
    · rw [left, right] at number
      contradiction
  · obtain ⟨n, same⟩ := unifyApart first second alike
    rw [same] at numeric
    simp [Ty.prim?] at numeric

theorem comparisonIs (alike : a.kind.Alike b.kind) : Operands.comparison a.type b.type = .prim (a.kind.wider b.kind) := by
  simp only [Operands.comparison, unifyIs alike, typePrim]
  rfl

def upTo : List Scalar → List Scalar
  | [] => []
  | c :: cs => if c.isNullable then c :: upTo cs else [c]

def first (cs : List Scalar) : Scalar :=
  match upTo cs with
  | [] => ⟨.int32, .nullable⟩
  | [c] => c
  | c :: rest => ⟨(rest.foldl join c).kind, if (c :: rest).any (!·.isNullable) then .boxed else .nullable⟩

end Scalar

def Value.whole? : Value → Option (Prim × Int)
  | .int v => some (.int32, v.toInt)
  | .long v => some (.int64, v.toInt)
  | .boxed (.boolean v) => some (.boolean, ofTruth v)
  | .boxed (.byte v) => some (.int8, v.toInt)
  | .boxed (.short v) => some (.int16, v.toInt)
  | .boxed (.int v) => some (.int32, v.toInt)
  | .boxed (.long v) => some (.int64, v.toInt)
  | _ => none

/-- The scalar that a value type of integers or booleans, or of one of them and null, stands for. -/
def ValueType.scalar? : ValueType → Option Scalar
  | .scalar p => if p.isWhole then some ⟨p, .raw⟩ else none
  | .optional (.scalar p) => if p.isWhole then some ⟨p, .nullable⟩ else none
  | _ => none

inductive Formula where
  | literal (v : Value) (location : Location)
  | null (t : ValueType) (location : Location)
  | argument (name : String) (location : Location)
  | arith (a : Arith) (left right : Formula) (location : Location)
  | negate (operand : Formula) (location : Location)
  | not (operand : Formula) (location : Location)
  | and (operands : List Formula) (location : Location)
  | or (operands : List Formula) (location : Location)
  | relation (c : Cond) (left right : Formula) (location : Location)
  | compare (left right : Formula) (location : Location)
  | isNull (operand : Formula) (location : Location)
  | cond (test yes no : Formula) (location : Location)
  | coalesce (operands : List Formula) (location : Location)

def Arith.operator : Arith → Operator
  | add => .add
  | sub => .sub
  | mul => .mult
  | div => .div
  | rem => .mod

def Cond.operator : Cond → Operator
  | eq => .eq
  | ne => .neq
  | lt => .lt
  | ge => .gtEq
  | gt => .gt
  | le => .ltEq

namespace Formula

mutual

def node : Formula → Node
  | literal v location => .mk .literal [.value v] location
  | null t location => .mk .null [.type t] location
  | argument name location => .mk .argument [.name name] location
  | arith a left right location => .mk a.operator [.node left.node, .node right.node] location
  | negate x location => .mk .negate [.node x.node] location
  | not x location => .mk .not [.node x.node] location
  | and xs location => .mk .and [.nodes (nodes xs)] location
  | or xs location => .mk .or [.nodes (nodes xs)] location
  | relation c left right location => .mk c.operator [.node left.node, .node right.node] location
  | compare left right location => .mk .compare [.node left.node, .node right.node] location
  | isNull x location => .mk .isNull [.node x.node] location
  | cond test yes no location => .mk .cond [.node test.node, .node yes.node, .node no.node] location
  | coalesce xs location => .mk .coalesce [.nodes (nodes xs)] location

def nodes : List Formula → List Node
  | [] => []
  | x :: xs => x.node :: nodes xs

end

mutual

def scalar (params : List (String × ValueType)) : Formula → Scalar
  | literal v _ => ⟨(v.whole?.map (·.1)).getD .int32, .raw⟩
  | null t _ => ⟨(t.scalar?.map (·.kind)).getD .int32, .nullable⟩
  | argument name _ => ((params.lookup name).bind ValueType.scalar?).getD ⟨.int32, .raw⟩
  | arith _ left right _ =>
    let a := left.scalar params
    let b := right.scalar params
    resultScalar (a.kind.wider b.kind) (a.isNullable || b.isNullable)
  | negate x _ => resultScalar (x.scalar params).kind (x.scalar params).isNullable
  | not _ _ | and _ _ | or _ _ | relation _ _ _ _ | isNull _ _ => ⟨.boolean, .raw⟩
  | compare _ _ _ => ⟨.int32, .raw⟩
  | cond _ yes no _ => (yes.scalar params).join (no.scalar params)
  | coalesce xs _ => .first (scalars params xs)

def scalars (params : List (String × ValueType)) : List Formula → List Scalar
  | [] => []
  | x :: xs => x.scalar params :: scalars params xs

end

mutual

/-- The number that a formula is worth, given those of the arguments; null is none. -/
def eval (params : List (String × ValueType)) (args : List (String × Option Int)) : Formula → Except Fault (Option Int)
  | literal v _ => .ok (v.whole?.map (·.2))
  | null _ _ => .ok none
  | argument name _ => .ok (args.lookup name).join
  | f@(arith a left right _) => do
    match ← pairOf (left.eval params args) (right.eval params args) with
    | none => .ok none
    | some (m, n) => (a.exact m n).map fun k => some ((f.scalar params).kind.wrap k)
  | negate x _ => do
    let n ← x.eval params args
    return n.map fun n => (x.scalar params).kind.wrap (-n)
  | not x _ => do return some (ofTruth !truth (← x.eval params args))
  | and xs _ => do return some (ofTruth (← allOf id (evals params args xs)))
  | or xs _ => do return some (ofTruth (← anyOf id (evals params args xs)))
  | relation c left right _ => do
    match ← pairOf (left.eval params args) (right.eval params args) with
    | none => return some (ofTruth false)
    | some (m, n) => return some (ofTruth (c.test (Ord.compare m n)))
  | compare left right _ => do
    let o ← rankOf (right.scalar params).isNullable (left.eval params args) (right.eval params args)
    return some (Number.ofOrdering o).toInt
  | isNull x _ => do return some (ofTruth (← x.eval params args).isNone)
  | cond test yes no _ => do
    if truth (← test.eval params args) then yes.eval params args else no.eval params args
  | coalesce xs _ => firstOf id (evals params args xs)

def evals (params : List (String × ValueType)) (args : List (String × Option Int)) :
    List Formula → List (Except Fault (Option Int))
  | [] => []
  | x :: xs => x.eval params args :: evals params args xs

end

mutual

/-- A formula over integers and booleans only: literals and nulls are of such types, comparisons are between two
integers or two booleans, and `joins` holds of the operands that a choice is made among. -/
def Fits (params : List (String × ValueType)) (joins : List Scalar → Prop) : Formula → Prop
  | literal v _ => v.whole?.isSome
  | null t _ => t.scalar?.isSome
  | argument _ _ => True
  | arith _ left right _ => left.Fits params joins ∧ right.Fits params joins
  | negate x _ | not x _ | isNull x _ => x.Fits params joins
  | and xs _ | or xs _ => FitAll params joins xs
  | relation _ left right _ | compare left right _ => left.Fits params joins ∧ right.Fits params joins ∧
    (left.scalar params).kind.Alike (right.scalar params).kind
  | cond test yes no _ => test.Fits params joins ∧ yes.Fits params joins ∧ no.Fits params joins ∧
    joins [yes.scalar params, no.scalar params]
  | coalesce xs _ => FitAll params joins xs ∧ joins (Scalar.upTo (scalars params xs))

def FitAll (params : List (String × ValueType)) (joins : List Scalar → Prop) : List Formula → Prop
  | [] => True
  | x :: xs => x.Fits params joins ∧ FitAll params joins xs

end

theorem literalIs {v : Value} {p : Prim} {n : Int} (is : v.whole? = some (p, n)) (params : List (String × ValueType))
    (args : List (String × Option Int)) (location : Location) :
    (literal v location).scalar params = ⟨p, .raw⟩ ∧ (literal v location).eval params args = .ok (some n) := by
  rw [scalar, eval, is]
  exact ⟨rfl, rfl⟩

theorem evalsMap (params : List (String × ValueType)) (args : List (String × Option Int)) (xs : List Formula) :
    evals params args xs = xs.map (eval params args) := by
  induction xs with
  | nil => rw [evals, List.map_nil]
  | cons x xs ih => rw [evals, ih, List.map_cons]

theorem scalarsMap (params : List (String × ValueType)) (xs : List Formula) :
    scalars params xs = xs.map (scalar params) := by
  induction xs with
  | nil => rw [scalars, List.map_nil]
  | cons x xs ih => rw [scalars, ih, List.map_cons]

end Formula

structure Scalar.Meet (cs : List Scalar) : Prop where
  alike : ∀ a ∈ cs, ∀ b ∈ cs, a.kind.Alike b.kind
  kept : ∀ c rest, cs = c :: rest → ∀ a ∈ cs, a.form = .raw ∨ a.kind = (rest.foldl join c).kind

theorem Value.wholeHolds {v : Value} {p : Prim} {n : Int} (is : v.whole? = some (p, n)) : p.Holds n ∧ p.isWhole := by
  unfold whole? at is
  split at is
  · cases is
    exact ⟨⟨Int32.le_toInt _, Int32.toInt_lt _⟩, rfl⟩
  · cases is
    exact ⟨⟨Int64.le_toInt _, Int64.toInt_lt _⟩, rfl⟩
  · cases is
    exact ⟨truthAdmits _, rfl⟩
  · cases is
    exact ⟨⟨Int8.le_toInt _, Int8.toInt_lt _⟩, rfl⟩
  · cases is
    exact ⟨⟨Int16.le_toInt _, Int16.toInt_lt _⟩, rfl⟩
  · cases is
    exact ⟨⟨Int32.le_toInt _, Int32.toInt_lt _⟩, rfl⟩
  · cases is
    exact ⟨⟨Int64.le_toInt _, Int64.toInt_lt _⟩, rfl⟩
  · contradiction

theorem ValueType.scalarWhole {t : ValueType} {c : Scalar} (is : t.scalar? = some c) : c.kind.isWhole := by
  unfold scalar? at is
  split at is
  · split at is
    · next whole =>
      cases is
      exact whole
    · contradiction
  · split at is
    · next whole =>
      cases is
      exact whole
    · contradiction
  · contradiction

end QueryMachine
