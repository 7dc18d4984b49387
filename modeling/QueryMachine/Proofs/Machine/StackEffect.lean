import QueryMachine.Machine.Exec
import QueryMachine.Proofs.Effects
import QueryMachine.Proofs.Verifier.Assignment

/-! Every operation moves the operand stack as its effect says, when the slots it takes are there, and none
raises a fault of broken code then. -/
namespace QueryMachine.Machine

open Verify (after)

/-- The faults by which the machine says that the code itself is wrong. -/
@[simp] def Broken : Fault → Prop
  | .failed what => what = "operand stack underflow" ∨ what = "control fell off the end of a method"
  | _ => False

/- The two texts start with `op` and `co`. -/
theorem failedNotBroken {what : String} (first : what.toList.take 2 ≠ ['o', 'p'])
    (second : what.toList.take 2 ≠ ['c', 'o']) : ¬ Broken (.failed what) := by
  rintro (rfl | rfl)
  · exact first rfl
  · exact second rfl

/-! ### The stack -/

theorem pushLength (v : Value) (s : Stack) : (push v s).length = s.length + v.width := by
  unfold push
  split
  · next wide => simp [wide]
  · next narrow =>
    have : v.width = 1 := by
      cases v <;> simp_all [Value.width]
    simp [this]

theorem popSafe {s : Stack} (enough : 1 ≤ s.length) :
    Answers (pop s) (fun r => s = r.1 :: r.2) (fun f => ¬ Broken f) := by
  cases s with
  | nil => simp at enough
  | cons v s => simp [pop]

theorem popWideSafe {s : Stack} (enough : 2 ≤ s.length) :
    Answers (popWide s) (fun r => r.2 = s.drop 2) (fun f => ¬ Broken f) := by
  match s, enough with
  | _ :: _ :: s, _ => simp [popWide, pop]

theorem popSizedSafe {width : Nat} {s : Stack} (enough : width ≤ s.length) (sized : width = 1 ∨ width = 2) :
    Answers (popSized width s) (fun r => r.2 = s.drop width) (fun f => ¬ Broken f) := by
  unfold popSized
  rcases sized with rfl | rfl
  · rw [if_neg (by decide)]
    exact (popSafe enough).mono (fun r is => by simp [is]) (fun _ => id)
  · rw [if_pos rfl]
    exact popWideSafe enough

theorem popSizedSome {width : Nat} {s : Stack} (enough : width ≤ s.length) (positive : 0 < width) :
    Answers (popSized width s) (fun _ => True) (fun f => ¬ Broken f) := by
  unfold popSized
  split
  · next wide => exact (popWideSafe (by omega)).mono (fun _ _ => trivial) (fun _ => id)
  · exact (popSafe (by omega)).mono (fun _ _ => trivial) (fun _ => id)

theorem popIntSafe {h : Heap} {s : Stack} (enough : 1 ≤ s.length) :
    Answers (popInt h s) (fun r => s = .int r.1 :: r.2) (fun f => ¬ Broken f) := by
  cases s with
  | nil => simp at enough
  | cons v s => cases v <;> simp [popInt, pop]

theorem popRefSafe {s : Stack} (enough : 1 ≤ s.length) :
    Answers (popRef s) (fun r => s = r.1 :: r.2 ∧ r.1 ≠ .null) (fun f => ¬ Broken f) := by
  cases s with
  | nil => simp at enough
  | cons v s => cases v <;> simp [popRef, pop]

theorem numWidth (k : Num) : k.width = 1 ∨ k.width = 2 := by cases k <;> simp [Num.width]

theorem primWidth (p : Prim) : p.width = 1 ∨ p.width = 2 := numWidth p.num

end QueryMachine.Machine

namespace QueryMachine.Number

open Machine (Broken)

/-! ### Numbers -/

theorem arithSafe (a : Arith) (k : Num) (x y : Value) :
    Answers (arith a k x y) (fun v => v.width = k.width) (fun f => ¬ Broken f) := by
  unfold arith
  split
  · next x y => cases a <;> simp only [int, divisible] <;> (try split) <;> simp [Except.map, Value.width, Num.width]
  · next x y => cases a <;> simp only [long, divisible] <;> (try split) <;> simp [Except.map, Value.width, Num.width]
  · simp [Value.width, Num.width]
  · simp [Value.width, Num.width]
  · simp

theorem negateSafe (h : Heap) (k : Num) (v : Value) :
    Answers (negate h k v) (fun _ => True) (fun f => ¬ Broken f) := by
  cases v <;> simp [negate]

theorem compareSafe (k : Num) (x y : Value) :
    Answers (compare k x y) (fun v => v.width = 1) (fun f => ¬ Broken f) := by
  unfold compare
  split <;> simp [Value.width]

theorem convertSafe (h : Heap) (source target : Num) (v : Value) :
    Answers (convert h source target v) (fun v => v.width = target.width) (fun f => ¬ Broken f) := by
  unfold convert
  split
  case h_5 =>
    split
    case h_5 => simp
    all_goals cases target <;> rfl
  all_goals rfl

theorem boxSafe (h : Heap) (p : Prim) (v : Value) :
    Answers (box h p v) (fun v => ∃ b, v = .boxed b) (fun f => ¬ Broken f) := by
  unfold box
  split <;> simp

theorem unboxSafe (h : Heap) (p : Prim) (v : Value) :
    Answers (unbox h p v) (fun v => v.width = p.width) (fun f => ¬ Broken f) := by
  cases v with
  | boxed b => cases p <;> cases b <;> rfl
  | _ => simp [unbox]

end QueryMachine.Number

namespace QueryMachine.Machine

open Verify (after)

/-! ### Operations on the stack and the locals -/

def isMeasured : Op → Bool
  | .load2 _ | .neg _ | .getField _ | .getStatic _ | .invoke _ | .dynamic _ (.getProperty _)
  | .dynamic _ .index => true
  | _ => false

/-- The stack an operation leaves: as deep as the effect says, or one value pushed on what the operation did
not take. -/
def Fits (op : Op) (s s' : Stack) : Prop :=
  s'.length = after op s.length ∨ isMeasured op = true ∧ ∃ v, s' = push v (s.drop op.effect.1)

def Moves (m : Method) (op : Op) (s : Stack) (ls : List Value) : Next → Prop
  | .next s' ls' => op.fallsThrough = true ∧ Fits op s s' ∧ ls'.length = ls.length
  | .jump pc s' ls' =>
    (∃ l ∈ op.targets, pc = m.position l) ∧ s'.length = after op s.length ∧ ls'.length = ls.length
  | .done _ => ∃ n, op = .ret n

theorem branchMoves {m : Method} {op : Op} {s s' : Stack} {ls : List Value} {taken : Bool} {l : Label}
    (target : op.targets = [l]) (falls : op.fallsThrough = true) (length : s'.length = after op s.length) :
    Moves m op s ls (branch m taken l s' ls) := by
  unfold branch
  split
  · exact ⟨⟨l, by simp [target], rfl⟩, length, rfl⟩
  · exact ⟨falls, .inl length, rfl⟩

theorem caseForTarget {cases : List (Int32 × Label)} {key : Int32} {l : Label}
    (found : caseFor? cases key = some l) : l ∈ cases.map (·.2) := by
  simp only [caseFor?, bind, Option.bind_eq_some_iff] at found
  obtain ⟨⟨k, l'⟩, at_, same⟩ := found
  split at same
  · cases same
    exact List.mem_map.2 ⟨_, List.mem_of_getElem? at_, rfl⟩
  · contradiction

inductive Carries (h : Heap) (f : Fault) : Op → Stack → Prop
  | thrown {s} : Carries h f .throw (.throwable f :: s)
  | failure {s} : Carries h f (.native .outcomeValue) (.failure f :: s)
  | promise {t a s} (settled : h.promise? a = some (.error f)) :
    Carries h f (.native .promiseGet) (t :: .promise a :: s)

theorem coreSafe {h : Heap} {m : Method} {op : Op} {s : Stack} {ls : List Value} {r : Except Fault Next}
    (is : core h m op s ls = some r) (enough : op.effect.1 ≤ s.length) :
    Answers r (Moves m op s ls) (fun f => Broken f → Carries h f op s) := by
  have plain : ∀ f, ¬ Broken f → Broken f → Carries h f op s := fun f no yes => absurd yes no
  cases op with
  | nop | constNull =>
    cases is
    exact ⟨rfl, .inl rfl, rfl⟩
  | const v =>
    cases is
    exact ⟨rfl, .inl (pushLength v s), rfl⟩
  | load i =>
    cases is
    exact ⟨rfl, .inl rfl, rfl⟩
  | load2 i =>
    cases is
    exact ⟨rfl, .inr ⟨rfl, _, rfl⟩, rfl⟩
  | store i =>
    cases is
    simp only [answersBind, answersOk]
    refine (popSafe enough).mono ?_ plain
    rintro ⟨v, t⟩ rfl
    exact ⟨rfl, .inl (by simp [after, Op.effect]), by simp⟩
  | store2 i =>
    cases is
    simp only [answersBind, answersOk]
    refine (popWideSafe enough).mono ?_ plain
    rintro ⟨v, t⟩ rfl
    exact ⟨rfl, .inl (by simp [after, Op.effect]), by simp⟩
  | pop n =>
    cases is
    exact ⟨rfl, .inl (by simp [after, Op.effect]), rfl⟩
  | dup n =>
    cases is
    simp only [Op.effect] at enough
    exact ⟨rfl, .inl (by simp only [after, Op.effect, List.length_append, List.length_take]; omega), rfl⟩
  | dupX n under =>
    cases is
    simp only [Op.effect] at enough
    rw [if_neg (by omega)]
    refine ⟨rfl, .inl ?_, rfl⟩
    simp only [after, Op.effect, List.length_append, List.length_take, List.length_drop]
    omega
  | swap =>
    obtain _ | ⟨a, _ | ⟨b, s⟩⟩ := s
    · simp [Op.effect] at enough
    · simp [Op.effect] at enough
    · cases is
      exact ⟨rfl, .inl (by simp [after, Op.effect]), rfl⟩
  | arith a k =>
    cases is
    simp only [Op.effect] at enough
    simp only [answersBind, answersOk]
    refine (popSizedSafe (by omega) (numWidth k)).mono ?_ plain
    rintro ⟨y, t⟩ rfl
    refine (popSizedSafe (by simp only [List.length_drop]; omega) (numWidth k)).mono ?_ plain
    rintro ⟨x, u⟩ rfl
    refine (Number.arithSafe a k x y).mono ?_ plain
    intro v width
    refine ⟨rfl, .inl ?_, rfl⟩
    simp only [pushLength, after, Op.effect, width, List.length_drop]
    omega
  | neg k =>
    cases is
    simp only [answersBind, answersOk]
    refine (popSizedSafe enough (numWidth k)).mono ?_ plain
    rintro ⟨v, t⟩ rfl
    refine (Number.negateSafe h k v).mono ?_ plain
    intro n _
    exact ⟨rfl, .inr ⟨rfl, n, rfl⟩, rfl⟩
  | cmp k =>
    cases is
    simp only [Op.effect] at enough
    simp only [answersBind, answersOk]
    refine (popSizedSafe (by omega) (numWidth k)).mono ?_ plain
    rintro ⟨y, t⟩ rfl
    refine (popSizedSafe (by simp only [List.length_drop]; omega) (numWidth k)).mono ?_ plain
    rintro ⟨x, u⟩ rfl
    refine (Number.compareSafe k x y).mono ?_ plain
    intro v width
    refine ⟨rfl, .inl ?_, rfl⟩
    simp only [pushLength, after, Op.effect, width, List.length_drop]
    omega
  | convert source target =>
    cases is
    simp only [answersBind, answersOk]
    refine (popSizedSafe enough (numWidth source)).mono ?_ plain
    rintro ⟨v, t⟩ rfl
    refine (Number.convertSafe h source target v).mono ?_ plain
    intro n width
    exact ⟨rfl, .inl (by simp only [pushLength, after, Op.effect, width, List.length_drop]), rfl⟩
  | narrow p =>
    cases is
    simp only [answersBind, answersOk]
    refine (popIntSafe enough).mono ?_ plain
    rintro ⟨i, t⟩ rfl
    exact ⟨rfl, .inl rfl, rfl⟩
  | box p =>
    cases is
    simp only [answersBind, answersOk]
    refine (popSizedSafe enough (primWidth p)).mono ?_ plain
    rintro ⟨v, t⟩ rfl
    refine (Number.boxSafe h p v).mono ?_ plain
    intro b _
    exact ⟨rfl, .inl (by simp [after, Op.effect]), rfl⟩
  | unbox p =>
    cases is
    simp only [answersBind, answersOk]
    refine (popSafe enough).mono ?_ plain
    rintro ⟨v, t⟩ rfl
    refine (Number.unboxSafe h p v).mono ?_ plain
    intro n width
    exact ⟨rfl, .inl (by simp [pushLength, after, Op.effect, width]), rfl⟩
  | checkCast cls =>
    cases s with
    | nil => simp [Op.effect] at enough
    | cons v s =>
      simp only [core, Option.some.injEq] at is
      subst is
      split
      · exact plain _ id
      · exact ⟨rfl, .inl rfl, rfl⟩
  | instanceOf cls =>
    cases is
    simp only [answersBind, answersOk]
    refine (popSafe enough).mono ?_ plain
    rintro ⟨v, t⟩ rfl
    exact ⟨rfl, .inl rfl, rfl⟩
  | jump l =>
    cases is
    exact ⟨⟨l, by simp [Op.targets], rfl⟩, rfl, rfl⟩
  | ifZero c l =>
    cases is
    simp only [answersBind, answersOk]
    refine (popIntSafe enough).mono ?_ plain
    rintro ⟨i, t⟩ rfl
    exact branchMoves rfl rfl rfl
  | ifCmp c l =>
    cases is
    simp only [Op.effect] at enough
    simp only [answersBind, answersOk]
    refine (popIntSafe (by omega)).mono ?_ plain
    rintro ⟨i, t⟩ rfl
    refine (popIntSafe (by simpa using enough)).mono ?_ plain
    rintro ⟨j, u⟩ rfl
    exact branchMoves rfl rfl rfl
  | ifNull l =>
    cases is
    simp only [answersBind, answersOk]
    refine (popSafe enough).mono ?_ plain
    rintro ⟨v, t⟩ rfl
    exact branchMoves rfl rfl rfl
  | ifNonNull l =>
    cases is
    simp only [answersBind, answersOk]
    refine (popSafe enough).mono ?_ plain
    rintro ⟨v, t⟩ rfl
    exact branchMoves rfl rfl rfl
  | lookup cases default =>
    cases is
    simp only [answersBind, answersOk]
    refine (popIntSafe enough).mono ?_ plain
    rintro ⟨i, t⟩ rfl
    refine ⟨⟨_, ?_, rfl⟩, rfl, rfl⟩
    cases found : caseFor? cases i with
    | none => simp [Op.targets]
    | some l => exact List.mem_append_left _ (caseForTarget found)
  | throw =>
    cases is
    simp only [answersBind, answersError]
    refine (popSafe enough).mono ?_ plain
    rintro ⟨v, t⟩ rfl broken
    cases v with
    | throwable f => exact .thrown
    | _ => exact absurd broken id
  | ret n =>
    cases is
    split
    · exact ⟨n, rfl⟩
    · next positive =>
      simp only [answersBind, answersOk]
      exact (popSizedSome enough (Nat.pos_of_ne_zero positive)).mono (fun _ _ => ⟨n, rfl⟩) plain
  | _ => contradiction

/-! ### Library calls -/

theorem expectStringSafe (h : Heap) (v : Value) :
    Answers (expectString h v) (fun _ => True) (fun f => ¬ Broken f) := by
  cases v <;> simp [expectString]

theorem expectRecordSafe (h : Heap) (v : Value) :
    Answers (expectRecord h v) (fun _ => True) (fun f => ¬ Broken f) := by
  cases v <;> simp [expectRecord]

theorem expectListSafe (h : Heap) (v : Value) :
    Answers (expectList h v) (fun _ => True) (fun f => ¬ Broken f) := by
  cases v <;> simp [expectList]

theorem expectMapSafe (h : Heap) (v : Value) :
    Answers (expectMap h v) (fun _ => True) (fun f => ¬ Broken f) := by
  cases v <;> simp [expectMap]

theorem expectPromiseSafe (h : Heap) (v : Value) :
    Answers (expectPromise h v) (fun a => v = .promise a) (fun f => ¬ Broken f) := by
  cases v <;> simp [expectPromise]

theorem expectTimeoutSafe (h : Heap) (v : Value) :
    Answers (expectTimeout h v) (fun _ => True) (fun f => ¬ Broken f) := by
  cases v <;> simp [expectTimeout]

theorem boundsSafe (i : Int) (n : Nat) : Answers (bounds i n) (fun _ => True) (fun f => ¬ Broken f) := by
  unfold bounds
  split <;> simp

theorem lengthOfSafe (h : Heap) (v : Value) :
    Answers (lengthOf h v) (fun _ => True) (fun f => ¬ Broken f) := by
  cases v <;> simp [lengthOf]

theorem compareObjectsSafe (h : Heap) (line offset : Int) (a b : Value) :
    Answers (compareObjects h line offset a b) (fun _ => True) (fun f => ¬ Broken f) := by
  unfold compareObjects
  split <;> simp

theorem readOnlySafe {h : Heap} {n : Native} {s : Stack} {r : Except Fault Stack}
    (is : readOnly h n s = some r) (enough : n.effect.1 ≤ s.length) :
    Answers r (fun s' => s'.length = after (.native n) s.length)
      (fun f => Broken f → Carries h f (.native n) s) := by
  have plain : ∀ f, ¬ Broken f → Broken f → Carries h f (.native n) s := fun f no yes => absurd yes no
  cases n with
  | listGet =>
    cases is
    simp only [Native.effect] at enough
    simp only [answersBind, answersOk]
    refine (popIntSafe (by omega)).mono ?_ plain
    rintro ⟨i, t⟩ rfl
    refine (popRefSafe (by simpa using enough)).mono ?_ plain
    rintro ⟨v, u⟩ ⟨rfl, _⟩
    refine (expectListSafe h v).mono ?_ plain
    intro a _
    exact (boundsSafe _ _).mono (fun _ _ => rfl) plain
  | length =>
    cases is
    simp only [answersBind, answersOk]
    refine (popSafe enough).mono ?_ plain
    rintro ⟨v, t⟩ rfl
    exact (lengthOfSafe h v).mono (fun _ _ => rfl) plain
  | mapGet =>
    cases is
    simp only [Native.effect] at enough
    simp only [answersBind, answersOk]
    refine (popSafe (by omega)).mono ?_ plain
    rintro ⟨k, t⟩ rfl
    refine (popRefSafe (by simpa using enough)).mono ?_ plain
    rintro ⟨v, u⟩ ⟨rfl, _⟩
    exact (expectMapSafe h v).mono (fun _ _ => rfl) plain
  | recordGet =>
    cases is
    simp only [Native.effect] at enough
    simp only [answersBind, answersOk]
    refine (popSafe (by omega)).mono ?_ plain
    rintro ⟨k, t⟩ rfl
    refine (expectStringSafe h k).mono ?_ plain
    intro name _
    refine (popSafe (by simpa using enough)).mono ?_ plain
    rintro ⟨v, u⟩ rfl
    exact (expectRecordSafe h v).mono (fun _ _ => rfl) plain
  | stringEquals | stringConcat | objectEquals =>
    cases is
    simp only [Native.effect] at enough
    simp only [answersBind, answersOk]
    refine (popSafe (by omega)).mono ?_ plain
    rintro ⟨b, t⟩ rfl
    refine (popSafe (by simpa using enough)).mono ?_ plain
    rintro ⟨a, u⟩ rfl
    rfl
  | stringUpper | stringHash =>
    cases is
    simp only [answersBind, answersOk]
    refine (popSafe enough).mono ?_ plain
    rintro ⟨v, t⟩ rfl
    exact (expectStringSafe h v).mono (fun _ _ => rfl) plain
  | objectCompare line offset =>
    cases is
    simp only [Native.effect] at enough
    simp only [answersBind, answersOk]
    refine (popRefSafe (by omega)).mono ?_ plain
    rintro ⟨b, t⟩ ⟨rfl, _⟩
    refine (popRefSafe (by simpa using enough)).mono ?_ plain
    rintro ⟨a, u⟩ ⟨rfl, _⟩
    exact (compareObjectsSafe h line offset a b).mono (fun _ _ => rfl) plain
  | outcomeSuccess | outcomeFailure | propertyNotFound =>
    cases is
    simp only [answersBind, answersOk]
    refine (popSafe enough).mono ?_ plain
    rintro ⟨v, t⟩ rfl
    rfl
  | outcomeValue =>
    cases is
    simp only [answersBind]
    refine (popRefSafe enough).mono ?_ plain
    rintro ⟨v, t⟩ ⟨rfl, _⟩
    cases v with
    | success v => rfl
    | failure f => exact fun _ => .failure
    | _ => exact plain _ id
  | timeoutCheck =>
    cases is
    simp only [answersBind]
    refine (popRefSafe enough).mono ?_ plain
    rintro ⟨v, t⟩ ⟨rfl, _⟩
    refine (expectTimeoutSafe h v).mono ?_ plain
    intro deadline _
    split
    · exact plain _ id
    · rfl
  | newFault kind =>
    cases is
    rfl
  | _ => contradiction

theorem awaitSafe (a : Address) (t : Timeout) (w : World) :
    (await a t).Ends w (fun _ _ => True) (fun f _ => Broken f → w.heap.promise? a = some (.error f)) := by
  unfold await
  simp only [Run.endsBind, Run.endsHeap]
  cases settled : w.heap.promise? a with
  | some r =>
    simp only [Run.endsLift]
    cases r with
    | ok v => trivial
    | error f => exact fun _ => rfl
  | none =>
    cases t.deadline with
    | none => trivial
    | some d => simp

theorem chainSafe (call : Callback → Value → Run Value) (a : Address) (f : Callback) (w : World) :
    (chain call a f).Ends w (fun _ _ => True) (fun f _ => ¬ Broken f) := by
  unfold chain
  simp only [Run.endsBind, Run.endsHeap]
  cases w.heap.promise? a with
  | some r =>
    cases r with
    | ok v =>
      simp only [Run.endsBind, Run.endsAttempt, Run.endsAlloc]
      unfold Run.Ends
      split <;> trivial
    | error e => trivial
  | none => trivial

theorem nativeSafe {call : Callback → Value → Run Value} {n : Native} {s : Stack} {w : World}
    (enough : n.effect.1 ≤ s.length) :
    (native call n s).Ends w (fun s' _ => s'.length = after (.native n) s.length)
      (fun f _ => Broken f → Carries w.heap f (.native n) s) := by
  have plain : ∀ f, ¬ Broken f → Broken f → Carries w.heap f (.native n) s := fun f no yes => absurd yes no
  unfold native
  simp only [Run.endsBind, Run.endsHeap]
  cases reads : readOnly w.heap n s with
  | some r =>
    simp only [Run.endsLift]
    exact readOnlySafe reads enough
  | none =>
    cases n with
    | newList | newMap | newRecord => rfl
    | listAdd =>
      simp only [Native.effect] at enough
      simp only [Run.endsBind, Run.endsLift]
      refine (popSafe (by omega)).mono ?_ plain
      rintro ⟨item, t⟩ rfl
      refine (popRefSafe (by simpa using enough)).mono ?_ plain
      rintro ⟨v, u⟩ ⟨rfl, _⟩
      exact (expectListSafe _ v).mono (fun _ _ => rfl) plain
    | listSet =>
      simp only [Native.effect] at enough
      simp only [Run.endsBind, Run.endsLift]
      refine (popSafe (by omega)).mono ?_ plain
      rintro ⟨item, t⟩ rfl
      refine (popIntSafe (by dsimp only; simp only [List.length_cons] at enough; omega)).mono ?_ plain
      rintro ⟨i, u⟩ rfl
      refine (popRefSafe (by simpa using enough)).mono ?_ plain
      rintro ⟨v, x⟩ ⟨rfl, _⟩
      refine (expectListSafe _ v).mono ?_ plain
      intro a _
      exact (boundsSafe _ _).mono (fun _ _ => rfl) plain
    | mapPut =>
      simp only [Native.effect] at enough
      simp only [Run.endsBind, Run.endsLift]
      refine (popSafe (by omega)).mono ?_ plain
      rintro ⟨value, t⟩ rfl
      refine (popSafe (by dsimp only; simp only [List.length_cons] at enough; omega)).mono ?_ plain
      rintro ⟨key, u⟩ rfl
      refine (popRefSafe (by simpa using enough)).mono ?_ plain
      rintro ⟨v, x⟩ ⟨rfl, _⟩
      exact (expectMapSafe _ v).mono (fun _ _ => rfl) plain
    | recordPut =>
      simp only [Native.effect] at enough
      simp only [Run.endsBind, Run.endsLift]
      refine (popSafe (by omega)).mono ?_ plain
      rintro ⟨value, t⟩ rfl
      refine (popSafe (by dsimp only; simp only [List.length_cons] at enough; omega)).mono ?_ plain
      rintro ⟨key, u⟩ rfl
      refine (expectStringSafe _ key).mono ?_ plain
      intro name _
      refine (popSafe (by simpa using enough)).mono ?_ plain
      rintro ⟨v, x⟩ rfl
      exact (expectRecordSafe _ v).mono (fun _ _ => rfl) plain
    | promiseGet =>
      simp only [Native.effect] at enough
      simp only [Run.endsBind, Run.endsLift]
      refine (popRefSafe (by omega)).mono ?_ plain
      rintro ⟨t, u⟩ ⟨rfl, _⟩
      refine (expectTimeoutSafe _ t).mono ?_ plain
      intro timeout _
      refine (popRefSafe (by simpa using enough)).mono ?_ plain
      rintro ⟨p, x⟩ ⟨rfl, _⟩
      refine (expectPromiseSafe _ p).mono ?_ plain
      rintro a rfl
      refine (awaitSafe a timeout w).mono (fun _ _ _ => rfl) ?_
      intro f _ settled broken
      exact .promise (settled broken)
    | promiseThen =>
      simp only [Native.effect] at enough
      simp only [Run.endsBind, Run.endsLift]
      refine (popRefSafe (by omega)).mono ?_ plain
      rintro ⟨f, t⟩ ⟨rfl, _⟩
      cases f with
      | function cls name =>
        simp only [Run.endsBind, Run.endsLift]
        refine (popRefSafe (by simpa using enough)).mono ?_ plain
        rintro ⟨p, u⟩ ⟨rfl, _⟩
        refine (expectPromiseSafe _ p).mono ?_ plain
        rintro a rfl
        exact (chainSafe call a ⟨cls, name⟩ w).mono (fun _ _ _ => rfl) (fun f _ => plain f)
      | _ => exact plain _ id
    | _ => contradiction

/-! ### Dynamic operations -/

variable {G : Fault → Prop}

def Quiet (G : Fault → Prop) (call : Call) : Prop :=
  ∀ m args w, (call m args).Ends w (fun _ _ => True) (fun f _ => Broken f → G f)

theorem adapterForSafe (lib : Library) (tag : Tag) :
    Answers (adapterFor lib tag) (fun _ => True) (fun f => ¬ Broken f) := by
  cases tag with
  | struct cls =>
    simp only [adapterFor]
    split
    · trivial
    · exact failedNotBroken (by simp) (by simp)
  | _ => trivial

theorem linkSafe (lib : Library) (tag : Tag) (w : World) :
    (link lib tag).Ends w (fun _ _ => True) (fun f _ => ¬ Broken f) := by
  unfold link
  simp only [Run.endsBind, Run.endsGet]
  split
  · trivial
  · simp only [Run.endsBind, Run.endsLift, Run.endsSet, Run.endsPure]
    exact adapterForSafe lib tag

theorem adapterAtSafe (lib : Library) (site : Nat) (target : Value) (w : World) :
    (adapterAt lib site target).Ends w (fun _ _ => True) (fun f _ => ¬ Broken f) := by
  have relinked : ∀ tag, (adapterAt.relink lib site tag).Ends w (fun _ _ => True) (fun f _ => ¬ Broken f) := by
    intro tag
    unfold adapterAt.relink
    simp only [Run.endsBind, Run.endsModify, Run.endsPure]
    exact linkSafe lib tag w
  unfold adapterAt
  simp only [Run.endsBind, Run.endsGet]
  split
  · split <;> simp
  · split
    · split
      · trivial
      · exact relinked _
    · exact relinked _

theorem accessorSafe {call : Call} (quiet : Quiet G call) (lib : Library) (cls name : String) (args : List Value)
    (w : World) : (accessor lib call cls name args).Ends w (fun _ _ => True) (fun f _ => Broken f → G f) := by
  unfold accessor
  split
  · exact quiet _ _ w
  · exact fun broken => absurd broken (failedNotBroken (by simp) (by simp))

theorem propertyOfSafe {call : Call} (quiet : Quiet G call) (lib : Library) (a : Adapter) (target : Value)
    (name : String) (w : World) :
    (propertyOf lib call a target name).Ends w (fun _ _ => True) (fun f _ => Broken f → G f) := by
  unfold propertyOf
  simp only [Run.endsBind, Run.endsHeap]
  split
  · trivial
  · trivial
  · exact accessorSafe quiet lib _ _ _ w
  · simp
  all_goals simp

theorem namedSafe {call : Call} (quiet : Quiet G call) (lib : Library) (a : Adapter) (target key : Value)
    (w : World) : (match key.string? with
      | some name => propertyOf lib call a target name
      | none => Run.fault (.classCast "String" (w.heap.className key))).Ends w (fun _ _ => True)
        (fun f _ => Broken f → G f) := by
  split
  · exact propertyOfSafe quiet lib a target _ w
  · simp

theorem indexOfSafe {call : Call} (quiet : Quiet G call) (lib : Library) (a : Adapter) (target key : Value)
    (w : World) : (indexOf lib call a target key).Ends w (fun _ _ => True) (fun f _ => Broken f → G f) := by
  unfold indexOf
  simp only [Run.endsBind, Run.endsHeap]
  split
  · exact namedSafe quiet lib _ target key w
  · exact namedSafe quiet lib _ target key w
  · trivial
  · trivial
  · split
    · simp
    · split
      · simp only [Run.endsBind, Run.endsLift, Run.endsPure]
        exact (boundsSafe _ _).mono (fun _ => id) (fun _ no yes => absurd yes no)
      · simp
  · simp
  · simp

theorem itemsOfSafe (a : Adapter) (target : Value) (w : World) :
    (itemsOf a target).Ends w (fun _ _ => True) (fun f _ => ¬ Broken f) := by
  unfold itemsOf
  simp only [Run.endsBind, Run.endsHeap]
  split <;> simp

theorem fieldNamesOfSafe {call : Call} (quiet : Quiet G call) (lib : Library) (a : Adapter) (target : Value)
    (w : World) : (fieldNamesOf lib call a target).Ends w (fun _ _ => True) (fun f _ => Broken f → G f) := by
  unfold fieldNamesOf
  simp only [Run.endsBind, Run.endsHeap]
  split
  · trivial
  · trivial
  · trivial
  · simp only [Run.endsBind]
    refine (accessorSafe quiet lib _ _ _ w).mono ?_ (fun _ _ => id)
    intro v w' _
    split <;> trivial
  · trivial

theorem mergeFieldsSafe {call : Call} (quiet : Quiet G call) (lib : Library) (a : Adapter) (source : Value)
    (r : Address) (w : World) :
    (mergeFields lib call a source r).Ends w (fun _ _ => True) (fun f _ => Broken f → G f) := by
  unfold mergeFields
  simp only [Run.endsBind]
  refine (fieldNamesOfSafe quiet lib a source w).mono ?_ (fun _ _ => id)
  intro names w' _
  refine Run.endsForM trivial ?_
  intro name _ w _
  simp only [Run.endsBind]
  refine (propertyOfSafe quiet lib a source name w).mono ?_ (fun _ _ => id)
  intro v w _
  split <;> simp

theorem dynamicSafe {call : Call} (quiet : Quiet G call) {lib : Library} {site : Nat} {d : Dynamic} {s : Stack}
    {w : World} (enough : d.effect.1 ≤ s.length) :
    (dynamic lib call site d s).Ends w (fun s' _ => Fits (.dynamic site d) s s') (fun f _ => Broken f → G f) := by
  have plain : ∀ f, ¬ Broken f → Broken f → G f := fun f no yes => absurd yes no
  unfold dynamic
  cases d with
  | getProperty name =>
    simp only [Run.endsBind, Run.endsLift, Run.endsPure]
    refine (popRefSafe enough).mono ?_ plain
    rintro ⟨target, t⟩ ⟨rfl, _⟩
    refine (adapterAtSafe lib site target w).mono ?_ (fun f _ => plain f)
    intro a w' _
    refine (propertyOfSafe quiet lib a target name w').mono ?_ (fun _ _ => id)
    intro v _ _
    exact .inr ⟨rfl, v, rfl⟩
  | index =>
    simp only [Dynamic.effect] at enough
    simp only [Run.endsBind, Run.endsLift, Run.endsPure]
    refine (popSafe (by omega)).mono ?_ plain
    rintro ⟨key, t⟩ rfl
    refine (popRefSafe (by simpa using enough)).mono ?_ plain
    rintro ⟨target, u⟩ ⟨rfl, _⟩
    refine (adapterAtSafe lib site target w).mono ?_ (fun f _ => plain f)
    intro a w' _
    refine (indexOfSafe quiet lib a target key w').mono ?_ (fun _ _ => id)
    intro v _ _
    exact .inr ⟨rfl, v, rfl⟩
  | iterate =>
    simp only [Run.endsBind, Run.endsLift, Run.endsPure, Run.endsAlloc]
    refine (popRefSafe enough).mono ?_ plain
    rintro ⟨target, t⟩ ⟨rfl, _⟩
    refine (adapterAtSafe lib site target w).mono ?_ (fun f _ => plain f)
    intro a w' _
    exact (itemsOfSafe a target w').mono (fun _ _ _ => .inl rfl) (fun f _ => plain f)
  | mergeFields =>
    simp only [Dynamic.effect] at enough
    simp only [Run.endsBind, Run.endsLift]
    refine (popSafe (by omega)).mono ?_ plain
    rintro ⟨source, t⟩ rfl
    refine (popRefSafe (by simpa using enough)).mono ?_ plain
    rintro ⟨writer, u⟩ ⟨rfl, _⟩
    cases writer with
    | record r =>
      dsimp only
      split
      · exact .inl rfl
      · simp only [Run.endsBind, Run.endsPure]
        refine (adapterAtSafe lib site source w).mono ?_ (fun f _ => plain f)
        intro a w' _
        exact (mergeFieldsSafe quiet lib a source r w').mono (fun _ _ _ => .inl rfl) (fun _ _ => id)
    | _ => simp
  | fieldNames =>
    simp only [Run.endsBind, Run.endsLift, Run.endsPure, Run.endsAlloc]
    refine (popRefSafe enough).mono ?_ plain
    rintro ⟨target, t⟩ ⟨rfl, _⟩
    refine (adapterAtSafe lib site target w).mono ?_ (fun f _ => plain f)
    intro a w' _
    exact (fieldNamesOfSafe quiet lib a target w').mono (fun _ _ _ => .inl rfl) (fun _ _ => id)

/-! ### Objects, static fields and calls -/

theorem classNamedSafe (lib : Library) (name : String) :
    Answers (classNamed lib name) (fun _ => True) (fun f => ¬ Broken f) := by
  unfold classNamed
  split
  · trivial
  · exact failedNotBroken (by simp) (by simp)

theorem methodNamedSafe (lib : Library) (cls name : String) :
    Answers (methodNamed lib cls name) (fun _ => True) (fun f => ¬ Broken f) := by
  unfold methodNamed
  simp only [answersBind]
  refine (classNamedSafe lib cls).mono ?_ (fun _ => id)
  intro c _
  split
  · trivial
  · exact failedNotBroken (by simp) (by simp)

def StoresValue : Op → Prop
  | .putField f | .putStatic f => f.rep ≠ .void
  | _ => True

theorem repWidth {r : Rep} (value : r ≠ .void) : r.width = 1 ∨ r.width = 2 := by
  cases r with
  | void => contradiction
  | prim p => exact primWidth p
  | ref cls => exact .inl rfl

theorem outerSafe {lib : Library} {call : Call} (quiet : Quiet G call) {apply : Callback → Value → Run Value}
    {op : Op} {h : Heap} {m : Method} {s : Stack} {ls : List Value} {w : World} (beyond : core h m op s ls = none)
    (enough : op.effect.1 ≤ s.length) (stores : StoresValue op) :
    (outer lib call apply op s).Ends w (fun s' _ => Fits op s s')
      (fun f _ => Broken f → Carries w.heap f op s ∨ G f) := by
  have plain : ∀ f, ¬ Broken f → Broken f → Carries w.heap f op s ∨ G f := fun f no yes => absurd yes no
  unfold outer
  simp only [Run.endsBind, Run.endsHeap]
  cases op with
  | new cls =>
    simp only [Run.endsBind, Run.endsLift, Run.endsPure, Run.endsAlloc]
    exact (classNamedSafe lib cls).mono (fun _ _ => .inl rfl) plain
  | getField f =>
    simp only [Run.endsBind, Run.endsLift]
    refine (popRefSafe enough).mono ?_ plain
    rintro ⟨target, t⟩ ⟨rfl, _⟩
    cases target with
    | object a =>
      simp only [Run.endsBind, Run.endsOrFault, Run.endsPure]
      exact ⟨fun v _ => .inr ⟨rfl, v, rfl⟩, fun _ => plain _ id⟩
    | _ => exact plain _ id
  | putField f =>
    simp only [Op.effect] at enough
    simp only [Run.endsBind, Run.endsLift]
    refine (popSizedSafe (by omega) (repWidth stores)).mono ?_ plain
    rintro ⟨v, t⟩ rfl
    refine (popRefSafe (by simp only [List.length_drop]; omega)).mono ?_ plain
    rintro ⟨target, u⟩ ⟨rest, _⟩
    have length : u.length = after (.putField f) s.length := by
      have := congrArg List.length rest
      simp only [List.length_drop, List.length_cons] at this
      simp only [after, Op.effect]
      omega
    cases target with
    | object a =>
      simp only [Run.endsBind, Run.endsOrFault, Run.endsSetHeap, Run.endsPure]
      exact ⟨fun _ _ => .inl length, fun _ => plain _ id⟩
    | _ => exact plain _ id
  | getStatic f =>
    simp only [Run.endsBind, Run.endsLift, Run.endsGet, Run.endsOrFault, Run.endsPure]
    refine (classNamedSafe lib f.cls).mono ?_ plain
    intro c _
    exact ⟨fun v _ => .inr ⟨rfl, v, rfl⟩, fun _ => plain _ id⟩
  | putStatic f =>
    simp only [Op.effect] at enough
    simp only [Run.endsBind, Run.endsLift, Run.endsGet]
    refine (popSizedSafe enough (repWidth stores)).mono ?_ plain
    rintro ⟨v, t⟩ rfl
    refine (classNamedSafe lib f.cls).mono ?_ plain
    intro c _
    split
    · simp only [Run.endsBind, Run.endsSet, Run.endsPure]
      exact .inl (by simp [after, Op.effect])
    · exact plain _ id
  | invoke m =>
    simp only [Run.endsBind, Run.endsLift, Run.endsPure]
    refine (methodNamedSafe lib m.cls m.name).mono ?_ plain
    intro callee _
    refine (quiet callee _ w).mono ?_ (fun _ _ passed broken => .inr (passed broken))
    intro v _ _
    split
    · next void => exact .inl (by simp [after, Op.effect, void])
    · exact .inr ⟨rfl, v, rfl⟩
  | function m =>
    simp only [Run.endsBind, Run.endsLift, Run.endsPure]
    exact (methodNamedSafe lib m.cls m.name).mono (fun _ _ => .inl rfl) plain
  | native n =>
    exact (nativeSafe enough).mono (fun _ _ => .inl) (fun _ _ carried broken => .inl (carried broken))
  | dynamic site d =>
    exact (dynamicSafe quiet enough).mono (fun _ _ => id) (fun _ _ passed broken => .inr (passed broken))
  | _ => contradiction

theorem outerFalls {op : Op} {h : Heap} {m : Method} {s : Stack} {ls : List Value}
    (beyond : core h m op s ls = none) : op.fallsThrough = true := by
  cases op <;> first | rfl | contradiction

theorem stepSafe {lib : Library} {call : Call} (quiet : Quiet G call) {apply : Callback → Value → Run Value}
    {op : Op} {a : Activation} {w : World} (enough : op.effect.1 ≤ a.stack.length) (stores : StoresValue op) :
    (step lib call apply op a).Ends w (fun next _ => Moves a.method op a.stack a.locals next)
      (fun f _ => Broken f → Carries w.heap f op a.stack ∨ G f) := by
  unfold step
  simp only [Run.endsBind, Run.endsHeap]
  cases inner : core w.heap a.method op a.stack a.locals with
  | some r =>
    simp only [Run.endsLift]
    exact (coreSafe inner enough).mono (fun _ => id) (fun _ carried broken => .inl (carried broken))
  | none =>
    simp only [Run.endsBind, Run.endsPure]
    refine (outerSafe quiet inner enough stores).mono ?_ (fun _ _ => id)
    intro s' _ fits
    exact ⟨outerFalls inner, fits, rfl⟩

end QueryMachine.Machine
