import Mathlib.Algebra.Group.Int.Defs
import Mathlib.Algebra.Group.Nat.Defs
import QueryMachine.Proofs.Build.Operands
import QueryMachine.Proofs.Machine.Course

/-! Integers and booleans as the machine holds them, raw or in boxes, and what conversion, arithmetic and comparison
make of them. -/
namespace QueryMachine

def Arith.exact (x y : Int) : Arith → Except Fault Int
  | add => .ok (x + y)
  | sub => .ok (x - y)
  | mul => .ok (x * y)
  | div => if y = 0 then .error .divideByZero else .ok (x.tdiv y)
  | rem => if y = 0 then .error .divideByZero else .ok (x.tmod y)

namespace Prim

def Holds : Prim → Int → Prop
  | boolean, n => n = 0 ∨ n = 1
  | int8, n => -2 ^ 7 ≤ n ∧ n < 2 ^ 7
  | int16, n => -2 ^ 15 ≤ n ∧ n < 2 ^ 15
  | int32, n => -2 ^ 31 ≤ n ∧ n < 2 ^ 31
  | int64, n => -2 ^ 63 ≤ n ∧ n < 2 ^ 63
  | float32, _ | float64, _ => False

def raw : Prim → Int → Value
  | int64, n => .long (.ofInt n)
  | _, n => .int (.ofInt n)

def inBox : Prim → Int → Boxed
  | boolean, n => .boolean (n != 0)
  | int8, n => .byte (.ofInt n)
  | int16, n => .short (.ofInt n)
  | int64, n => .long (.ofInt n)
  | _, n => .int (.ofInt n)

def wrap : Prim → Int → Int
  | int8, n => n.bmod (2 ^ 8)
  | int16, n => n.bmod (2 ^ 16)
  | int64, n => n.bmod (2 ^ 64)
  | _, n => n.bmod (2 ^ 32)

def Into (p q : Prim) : Prop := p = q ∨ p.isInteger ∧ q.isInteger ∧ p.kind.rank ≤ q.kind.rank

variable {p q : Prim} {n : Int} {h : Heap}

theorem Holds.int32 (holds : p.Holds n) (narrow : p ≠ .int64) : -2 ^ 31 ≤ n ∧ n < 2 ^ 31 := by
  cases p <;> simp only [Holds] at holds <;> first | contradiction | omega

theorem Holds.int64 (holds : p.Holds n) : -2 ^ 63 ≤ n ∧ n < 2 ^ 63 := by
  cases p <;> simp only [Holds] at holds <;> first | contradiction | omega

theorem Holds.into (holds : p.Holds n) (into : p.Into q) : q.Holds n := by
  obtain rfl | ⟨source, target, wider⟩ := into
  · exact holds
  · cases p <;> cases q <;> simp_all [Holds, isInteger, kind, Kind.isInteger, Kind.rank] <;> omega

theorem wrapHolds (integer : p.isInteger) (n : Int) : p.Holds (p.wrap n) := by
  have bound : ∀ k : Nat, -(2 ^ k : Int) ≤ n.bmod (2 ^ (k + 1)) ∧ n.bmod (2 ^ (k + 1)) < 2 ^ k := by
    intro k
    have low := Int.le_bmod (x := n) (m := 2 ^ (k + 1)) (Nat.two_pow_pos _)
    have high := Int.bmod_lt (x := n) (m := 2 ^ (k + 1)) (Nat.two_pow_pos _)
    have pow : ((2 ^ (k + 1) : Nat) : Int) = 2 * 2 ^ k := by
      rw [Int.natCast_pow, Int.pow_succ, Int.mul_comm]
      rfl
    rw [pow] at low high
    omega
  cases p with
  | int8 => exact bound 7
  | int16 => exact bound 15
  | int32 => exact bound 31
  | int64 => exact bound 63
  | _ => contradiction

theorem wrapSame (integer : p.isInteger) (holds : p.Holds n) : p.wrap n = n := by
  cases p <;> simp only [Holds] at holds <;>
    first | contradiction | exact Int.bmod_eq_of_le (by omega) (by omega)

theorem int32ToInt (holds : p.Holds n) (narrow : p ≠ .int64) : (Int32.ofInt n).toInt = n := by
  obtain ⟨low, high⟩ := holds.int32 narrow
  rw [Int32.toInt_ofInt]
  exact Int.bmod_eq_of_le (by simp [Int32.size]; omega) (by simp [Int32.size]; omega)

theorem int64ToInt (holds : p.Holds n) : (Int64.ofInt n).toInt = n := by
  obtain ⟨low, high⟩ := holds.int64
  rw [Int64.toInt_ofInt]
  exact Int.bmod_eq_of_le (by simp [Int64.size]; omega) (by simp [Int64.size]; omega)

theorem rawWidth (whole : p.Holds n) : (p.raw n).width = p.width := by
  cases p <;> first | rfl | exact whole.elim

theorem boxRaw (holds : p.Holds n) : Number.box h p (p.raw n) = .ok (.boxed (p.inBox n)) := by
  cases p with
  | boolean => obtain rfl | rfl := holds <;> rfl
  | int8 => simp only [raw, Number.box, inBox, Int32.toInt8_ofInt]
  | int16 => simp only [raw, Number.box, inBox, Int32.toInt16_ofInt]
  | int32 => rfl
  | int64 => rfl
  | float32 => exact holds.elim
  | float64 => exact holds.elim

theorem int32OfWrap (n : Int) : Int32.ofInt (Prim.int32.wrap n) = .ofInt n := by
  change Int32.ofInt (n.bmod Int32.size) = Int32.ofInt n
  rw [← Int32.toInt_inj, Int32.toInt_ofInt, Int32.toInt_ofInt, Int.bmod_bmod]

theorem narrowOfInt (small : p = .int8 ∨ p = .int16) (n : Int) :
    Number.narrow p (.ofInt n) = .ofInt (p.wrap n) := by
  rw [← Int32.toInt_inj]
  have holds : ∀ q : Prim, q.isInteger → q ≠ .int64 → (Int32.ofInt (q.wrap n)).toInt = q.wrap n :=
    fun q integer narrow => int32ToInt (wrapHolds integer n) narrow
  obtain rfl | rfl := small
  · rw [holds .int8 rfl nofun]
    simp only [Number.narrow, Int32.toInt8_ofInt, Int8.toInt_toInt32, Int8.toInt_ofInt]
    rfl
  · rw [holds .int16 rfl nofun]
    simp only [Number.narrow, Int32.toInt16_ofInt, Int16.toInt_toInt32, Int16.toInt_ofInt]
    rfl

theorem integerInBox (holds : p.Holds n) (integer : p.isInteger) : Number.integerIn (p.inBox n) = .ofInt n := by
  rw [← Int64.toInt_inj, int64ToInt holds]
  cases p with
  | int8 =>
    change (Int8.ofInt n).toInt64.toInt = n
    rw [Int8.toInt_toInt64, Int8.toInt_ofInt]
    exact wrapSame (p := .int8) rfl holds
  | int16 =>
    change (Int16.ofInt n).toInt64.toInt = n
    rw [Int16.toInt_toInt64, Int16.toInt_ofInt]
    exact wrapSame (p := .int16) rfl holds
  | int32 =>
    change (Int32.ofInt n).toInt64.toInt = n
    rw [Int32.toInt_toInt64]
    exact int32ToInt holds nofun
  | int64 => exact int64ToInt holds
  | _ => contradiction

theorem openBox (holds : p.Holds n) : Number.openBox p (p.inBox n) = p.raw n := by
  cases p with
  | boolean => obtain rfl | rfl := holds <;> rfl
  | int8 =>
    simp only [Number.openBox, integerInBox holds rfl, Int64.toInt32_ofInt, narrowOfInt (.inl rfl),
      wrapSame rfl holds, raw]
  | int16 =>
    simp only [Number.openBox, integerInBox holds rfl, Int64.toInt32_ofInt, narrowOfInt (.inr rfl),
      wrapSame rfl holds, raw]
  | int32 => simp only [Number.openBox, integerInBox holds rfl, Int64.toInt32_ofInt, Number.narrow, raw]
  | int64 => simp only [Number.openBox, integerInBox holds rfl, raw]
  | float32 => exact holds.elim
  | float64 => exact holds.elim

/-! ### On the stack -/

open Machine (push popSized Performs)
open Conversion (primitive)
open Build (narrowOps)

variable {x y : Int} {s : Machine.Stack}

theorem popRaw (holds : p.Holds n) : popSized p.num.width (push (p.raw n) s) = .ok (p.raw n, s) := by
  cases p <;> first | rfl | exact holds.elim

theorem widenPerforms (holds : p.Holds n) (narrow : p ≠ .int64) :
    Performs [.convert .int .long] (.int (.ofInt n) :: s) (.ok (push (.long (.ofInt n)) s)) := by
  refine .next ?_ .done
  intro h m ls
  have same : (Int32.ofInt n).toInt64 = Int64.ofInt n := by
    rw [← Int64.toInt_inj, Int32.toInt_toInt64, int32ToInt holds narrow, int64ToInt holds]
  rw [← same]
  rfl

theorem primitivePerforms (holds : p.Holds n) (into : p.Into q) :
    Performs (primitive p q) (push (p.raw n) s) (.ok (push (q.raw n) s)) := by
  have widen : p ≠ .int64 → Performs [.convert .int .long] (.int (.ofInt n) :: s) (.ok (push (.long (.ofInt n)) s)) :=
    widenPerforms holds
  obtain rfl | ⟨source, target, wider⟩ := into
  · rw [primitive, if_pos rfl]
    exact .done
  · cases p <;> first | contradiction | (cases q <;> first | contradiction | exact .done | exact widen (by decide))

theorem boxPerforms (holds : p.Holds n) : Performs [.box p] (push (p.raw n) s) (.ok (.boxed (p.inBox n) :: s)) := by
  refine .next ?_ .done
  intro h m ls
  change some (popSized p.num.width (push (p.raw n) s) >>= _) = _
  rw [popRaw holds]
  change some (Number.box h p (p.raw n) >>= _) = _
  rw [boxRaw holds]
  rfl

theorem unboxPerforms (holds : p.Holds n) : Performs [.unbox p] (.boxed (p.inBox n) :: s) (.ok (push (p.raw n) s)) := by
  refine .next ?_ .done
  intro h m ls
  rw [← openBox holds]
  rfl

theorem narrowPerforms (integer : p.isInteger) (n : Int) :
    Performs (narrowOps p) (push (p.raw n) s) (.ok (push (p.raw (p.wrap n)) s)) := by
  have cut : p = .int8 ∨ p = .int16 →
      Performs [.narrow p] (.int (.ofInt n) :: s) (.ok (.int (.ofInt (p.wrap n)) :: s)) := by
    intro small
    refine .next ?_ .done
    intro h m ls
    rw [← narrowOfInt small]
    rfl
  cases p with
  | int8 => exact cut (.inl rfl)
  | int16 => exact cut (.inr rfl)
  | int32 =>
    change Performs [] (.int (.ofInt n) :: s) (.ok (.int (.ofInt (Prim.int32.wrap n)) :: s))
    rw [int32OfWrap]
    exact .done
  | int64 =>
    have same : Int64.ofInt (n.bmod Int64.size) = Int64.ofInt n := by
      rw [← Int64.toInt_inj, Int64.toInt_ofInt, Int64.toInt_ofInt, Int.bmod_bmod]
    change Performs [] (.top :: .long (.ofInt n) :: s) (.ok (.top :: .long (.ofInt (n.bmod Int64.size)) :: s))
    rw [same]
    exact .done
  | _ => contradiction

theorem int32Zero (holds : p.Holds n) (narrow : p ≠ .int64) : (Int32.ofInt n == 0) = decide (n = 0) := by
  rw [Bool.eq_iff_iff, beq_iff_eq, ← Int32.toInt_inj, int32ToInt holds narrow, decide_eq_true_iff]
  rfl

theorem int64Zero (holds : p.Holds n) : (Int64.ofInt n == 0) = decide (n = 0) := by
  rw [Bool.eq_iff_iff, beq_iff_eq, ← Int64.toInt_inj, int64ToInt holds, decide_eq_true_iff]
  rfl

theorem intExact {a : Arith} (first : p.Holds x) (second : p.Holds y) (narrow : p ≠ .int64) :
    Number.int a (.ofInt x) (.ofInt y) = (a.exact x y).map .ofInt := by
  obtain ⟨lowX, highX⟩ := first.int32 narrow
  obtain ⟨lowY, highY⟩ := second.int32 narrow
  have min : Int32.minValue.toInt = -2 ^ 31 := rfl
  have max : Int32.maxValue.toInt = 2 ^ 31 - 1 := rfl
  cases a with
  | add => exact congrArg Except.ok (Int32.ofInt_add x y).symm
  | sub => exact congrArg Except.ok (Int32.ofInt_sub x y).symm
  | mul => exact congrArg Except.ok (Int32.ofInt_mul x y).symm
  | div =>
    rw [Number.int, Number.divisible, int32Zero second narrow, Arith.exact,
      ← Int32.ofInt_tdiv (by omega) (by omega) (by omega) (by omega)]
    by_cases zero : y = 0 <;> simp [zero, Except.map]
  | rem =>
    rw [Number.int, Number.divisible, int32Zero second narrow, Arith.exact,
      ← Int32.ofInt_tmod (by omega) (by omega) (by omega) (by omega)]
    by_cases zero : y = 0 <;> simp [zero, Except.map]

theorem longExact {a : Arith} (first : p.Holds x) (second : p.Holds y) :
    Number.long a (.ofInt x) (.ofInt y) = (a.exact x y).map .ofInt := by
  obtain ⟨lowX, highX⟩ := first.int64
  obtain ⟨lowY, highY⟩ := second.int64
  have min : Int64.minValue.toInt = -2 ^ 63 := rfl
  have max : Int64.maxValue.toInt = 2 ^ 63 - 1 := rfl
  cases a with
  | add => exact congrArg Except.ok (Int64.ofInt_add x y).symm
  | sub => exact congrArg Except.ok (Int64.ofInt_sub x y).symm
  | mul => exact congrArg Except.ok (Int64.ofInt_mul x y).symm
  | div =>
    rw [Number.long, Number.divisible, int64Zero second, Arith.exact,
      ← Int64.ofInt_tdiv (by omega) (by omega) (by omega) (by omega)]
    by_cases zero : y = 0 <;> simp [zero, Except.map]
  | rem =>
    rw [Number.long, Number.divisible, int64Zero second, Arith.exact,
      ← Int64.ofInt_tmod (by omega) (by omega) (by omega) (by omega)]
    by_cases zero : y = 0 <;> simp [zero, Except.map]

theorem arithExact {a : Arith} (integer : p.isInteger) (first : p.Holds x) (second : p.Holds y) :
    Number.arith a p.num (p.raw x) (p.raw y) = (a.exact x y).map p.raw := by
  have mapped {α β γ : Type} (r : Except Fault α) (f : α → β) (g : β → γ) : (r.map f).map g = r.map fun v => g (f v) := by
    cases r <;> rfl
  cases p with
  | int8 | int16 | int32 =>
    change (Number.int a (.ofInt x) (.ofInt y)).map Value.int = _
    rw [intExact first second nofun, mapped]
    rfl
  | int64 =>
    change (Number.long a (.ofInt x) (.ofInt y)).map Value.long = _
    rw [longExact first second, mapped]
    rfl
  | _ => contradiction

theorem arithPerforms {a : Arith} (integer : p.isInteger) (first : p.Holds x) (second : p.Holds y) :
    Performs (.arith a p.num :: narrowOps p) (push (p.raw y) (push (p.raw x) s))
      ((a.exact x y).map fun n => push (p.raw (p.wrap n)) s) := by
  have turn : ∀ h m ls, Machine.core h m (.arith a p.num) (push (p.raw y) (push (p.raw x) s)) ls =
      some ((a.exact x y).map fun n => .next (push (p.raw n) s) ls) := by
    intro h m ls
    change some (popSized p.num.width (push (p.raw y) (push (p.raw x) s)) >>= _) = _
    rw [popRaw second]
    change some (popSized p.num.width (push (p.raw x) s) >>= _) = _
    rw [popRaw first]
    change some (Number.arith a p.num (p.raw x) (p.raw y) >>= _) = _
    rw [arithExact integer first second]
    cases a.exact x y <;> rfl
  cases result : a.exact x y with
  | error f => exact .fault fun h m ls => by rw [turn, result]; rfl
  | ok n => exact .next (fun h m ls => by rw [turn, result]; rfl) (narrowPerforms integer n)

theorem negatePerforms (integer : p.isInteger) (holds : p.Holds n) :
    Performs (.neg p.num :: narrowOps p) (push (p.raw n) s) (.ok (push (p.raw (p.wrap (-n))) s)) := by
  refine .next ?_ (narrowPerforms integer (-n))
  intro h m ls
  change some (popSized p.num.width (push (p.raw n) s) >>= _) = _
  rw [popRaw holds]
  have negated : Number.negate h p.num (p.raw n) = .ok (p.raw (-n)) := by
    cases p with
    | int64 => exact congrArg (fun v => Except.ok (Value.long v)) (Int64.ofInt_neg n).symm
    | float32 => exact holds.elim
    | float64 => exact holds.elim
    | _ => exact congrArg (fun v => Except.ok (Value.int v)) (Int32.ofInt_neg n).symm
  change some (Number.negate h p.num (p.raw n) >>= _) = _
  rw [negated]
  rfl

theorem compareExact (first : p.Holds x) (second : p.Holds y) :
    Number.compare p.num (p.raw x) (p.raw y) = .ok (.int (Number.ofOrdering (compare x y))) := by
  have ints : p ≠ .int64 → compare (Int32.ofInt x) (Int32.ofInt y) = compare x y := by
    intro narrow
    simp only [compare, compareOfLessAndEq, Int32.lt_iff_toInt_lt, ← Int32.toInt_inj, int32ToInt first narrow,
      int32ToInt second narrow]
  have longs : compare (Int64.ofInt x) (Int64.ofInt y) = compare x y := by
    simp only [compare, compareOfLessAndEq, Int64.lt_iff_toInt_lt, ← Int64.toInt_inj, int64ToInt first, int64ToInt second]
  cases p with
  | int64 => exact congrArg (fun o => Except.ok (Value.int (Number.ofOrdering o))) longs
  | float32 => exact first.elim
  | float64 => exact first.elim
  | _ => exact congrArg (fun o => Except.ok (Value.int (Number.ofOrdering o))) (ints nofun)

theorem comparePerforms (first : p.Holds x) (second : p.Holds y) :
    Performs [.cmp p.num] (push (p.raw y) (push (p.raw x) s)) (.ok (.int (Number.ofOrdering (compare x y)) :: s)) := by
  refine .next ?_ .done
  intro h m ls
  change some (popSized p.num.width (push (p.raw y) (push (p.raw x) s)) >>= _) = _
  rw [popRaw second]
  change some (popSized p.num.width (push (p.raw x) s) >>= _) = _
  rw [popRaw first]
  change some (Number.compare p.num (p.raw x) (p.raw y) >>= _) = _
  rw [compareExact first second]
  rfl

theorem zeroPerforms (holds : p.Holds n) : ∃ z : Int32, Performs (zeroOps p) (push (p.raw n) s) (.ok (.int z :: s)) ∧
    Cond.eq.test (compare z 0) = decide (n = 0) := by
  have same : p ≠ .int64 → Cond.eq.test (compare (Int32.ofInt n) 0) = decide (n = 0) := by
    intro narrow
    rw [← int32Zero holds narrow]
    simp only [Cond.test, compare, compareOfLessAndEq]
    split
    · next less => simp [Int32.ne_of_lt less]
    · split <;> simp_all
  cases p with
  | int64 =>
    have zero : Prim.int64.Holds 0 := by simp [Holds]
    refine ⟨Number.ofOrdering (compare n 0), ?_, ?_⟩
    · refine .next (t := push (Prim.int64.raw 0) (push (Prim.int64.raw n) s)) (fun h m ls => rfl) ?_
      exact comparePerforms holds zero
    · rcases Int.lt_trichotomy n 0 with less | rfl | more
      · rw [Int.compare_eq_lt.2 less]
        simp [Int.ne_of_lt less]
        rfl
      · rfl
      · rw [Int.compare_eq_gt.2 more]
        simp [Int.ne_of_gt more]
        rfl
  | float32 => exact holds.elim
  | float64 => exact holds.elim
  | _ => exact ⟨_, .done, same nofun⟩

end Prim

end QueryMachine
