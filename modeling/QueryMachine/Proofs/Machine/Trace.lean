import QueryMachine.Machine.Exec
import QueryMachine.Proofs.Effects

/-! The points a run goes through, in the method it starts with and in every call it makes. -/
namespace QueryMachine

def Library.Has (lib : Library) (m : Method) : Prop := ∃ c ∈ lib.classes, m ∈ c.methods

theorem Class.methodMember {c : Class} {name : String} {m : Method} (found : c.method? name = some m) :
    m ∈ c.methods := by
  exact List.mem_reverse.1 (List.mem_of_find?_eq_some found)

theorem Library.classMember {lib : Library} {name : String} {c : Class} (found : lib.class? name = some c) :
    c ∈ lib.classes :=
  List.mem_of_find?_eq_some found

namespace Machine

theorem methodNamedHas {lib : Library} {cls name : String} {m : Method}
    (found : methodNamed lib cls name = .ok m) : lib.Has m := by
  unfold methodNamed at found
  obtain ⟨c, inClass, found⟩ := exceptBind found
  unfold classNamed at inClass
  split at inClass
  · next c' known =>
    cases inClass
    split at found
    · next m' named =>
      cases found
      exact ⟨c, Library.classMember known, Class.methodMember named⟩
    · contradiction
  · contradiction

/-! ### Steps see nothing but the calls they make -/

section Congruence

variable {lib : Library} {call other : Call} (agree : ∀ m, lib.Has m → ∀ args, call m args = other m args)
include agree

theorem accessorCongr (cls name : String) (args : List Value) :
    accessor lib call cls name args = accessor lib other cls name args := by
  unfold accessor
  cases found : (lib.class? cls).bind (·.method? name) with
  | none => rfl
  | some m =>
    obtain ⟨c, known, named⟩ := Option.bind_eq_some_iff.1 found
    exact agree m ⟨c, Library.classMember known, Class.methodMember named⟩ _

theorem propertyOfCongr (a : Adapter) (target : Value) (name : String) :
    propertyOf lib call a target name = propertyOf lib other a target name := by
  unfold propertyOf
  simp only [accessorCongr agree]

theorem indexOfCongr (a : Adapter) (target key : Value) :
    indexOf lib call a target key = indexOf lib other a target key := by
  unfold indexOf
  simp only [propertyOfCongr agree]

theorem fieldNamesOfCongr (a : Adapter) (target : Value) :
    fieldNamesOf lib call a target = fieldNamesOf lib other a target := by
  unfold fieldNamesOf
  simp only [accessorCongr agree]

theorem mergeFieldsCongr (a : Adapter) (source : Value) (r : Address) :
    mergeFields lib call a source r = mergeFields lib other a source r := by
  unfold mergeFields
  simp only [fieldNamesOfCongr agree, propertyOfCongr agree]

theorem dynamicCongr (site : Nat) (d : Dynamic) (s : Stack) :
    dynamic lib call site d s = dynamic lib other site d s := by
  unfold dynamic
  simp only [propertyOfCongr agree, indexOfCongr agree, mergeFieldsCongr agree, fieldNamesOfCongr agree]

theorem outerCongr (apply : Callback → Value → Run Value) (op : Op) (s : Stack) :
    outer lib call apply op s = outer lib other apply op s := by
  unfold outer
  cases op with
  | invoke m =>
    cases found : methodNamed lib m.cls m.name with
    | error f =>
      simp only [found]
      rfl
    | ok callee =>
      have same := agree callee (methodNamedHas found)
      simp only [found, Run.lift, pure_bind, same]
  | dynamic site d => simp only [dynamicCongr agree]
  | _ => rfl

theorem stepCongr (apply : Callback → Value → Run Value) (op : Op) (a : Activation) :
    step lib call apply op a = step lib other apply op a := by
  unfold step
  simp only [outerCongr agree]

end Congruence

theorem enterCongr {run other : Nat → Activation → Run Value} {depth : Nat} {m : Method}
    (agree : ∀ args, run (depth + 1) (.start m args) = other (depth + 1) (.start m args)) (args : List Value) :
    enter run depth m args = enter other depth m args := by
  unfold enter
  rw [agree]

theorem continueWithCongr {lib : Library} {run other : Nat → Activation → Run Value}
    (agree : ∀ m, lib.Has m → ∀ depth args, run depth (.start m args) = other depth (.start m args)) :
    continueWith lib run = continueWith lib other := by
  funext f v
  unfold continueWith
  cases found : methodNamed lib f.cls f.name with
  | error e => rfl
  | ok m =>
    simp only [Run.lift, pure_bind]
    exact enterCongr (agree m (methodNamedHas found) 1) _

/-! ### Points of a run -/

structure Point where
  fuel : Nat
  depth : Nat
  activation : Activation
  world : World

namespace Point

def op? (p : Point) : Option Op := p.activation.method.ops[p.activation.pc]?

end Point

/-- The operation of a point, when `fuel` more are left to the calls it makes. -/
def turn (lib : Library) (fuel depth : Nat) (op : Op) (a : Activation) : Run Next :=
  step lib (enter (exec lib fuel) depth) (continueWith lib (exec lib fuel)) op a

theorem stepOpen (lib : Library) (call : Call) (apply : Callback → Value → Run Value) (op : Op) (a : Activation)
    (w : World) : step lib call apply op a w = (match core w.heap a.method op a.stack a.locals with
      | some r => Run.lift r
      | none => do return .next (← outer lib call apply op a.stack) a.locals : Run Next) w := rfl

/-! ### Locals -/

def stores : Op → List Nat
  | .store i => [i]
  | .store2 i => [i, i + 1]
  | _ => []

def Spares (o : Op) (ls ls' : List Value) : Prop := ls'.length = ls.length ∧ ∀ i, i ∉ stores o → ls'[i]? = ls[i]?

theorem sparesSame (o : Op) (ls : List Value) : Spares o ls ls := ⟨rfl, fun _ _ => rfl⟩

def Lands (m : Method) (o : Op) (ls : List Value) : Next → Prop
  | .next _ ls' => Spares o ls ls'
  | .jump pc _ ls' => ls' = ls ∧ ∃ l, pc = m.position l
  | .done _ => ∃ n, o = .ret n

theorem answersAny {α : Type} {Q : α → Prop} {x : Except Fault α} (all : ∀ v, Q v) : Answers x Q fun _ => True := by
  cases x with
  | ok v => exact all v
  | error => trivial

theorem branchLands (m : Method) (o : Op) (taken : Bool) (l : Label) (s : Stack) (ls : List Value) :
    Lands m o ls (branch m taken l s ls) := by
  cases taken with
  | true => exact ⟨rfl, l, rfl⟩
  | false => exact sparesSame o ls

theorem coreLands {h : Heap} {m : Method} {o : Op} {s : Stack} {ls : List Value} {r : Except Fault Next}
    (is : core h m o s ls = some r) : Answers r (Lands m o ls) fun _ => True := by
  have same := sparesSame o ls
  cases o with
  | nop | constNull | const | load | load2 | pop | dup =>
    cases is
    exact same
  | jump l =>
    cases is
    exact ⟨rfl, l, rfl⟩
  | store i =>
    cases is
    rw [answersBind]
    refine answersAny fun x => ⟨List.length_set, fun j apart => ?_⟩
    exact List.getElem?_set_ne fun here => apart (List.mem_singleton.2 here.symm)
  | store2 i =>
    cases is
    rw [answersBind]
    refine answersAny fun x => ⟨by simp, fun j apart => ?_⟩
    simp only [stores, List.mem_cons, List.not_mem_nil, or_false, not_or] at apart
    rw [List.getElem?_set_ne (Ne.symm apart.2), List.getElem?_set_ne (Ne.symm apart.1)]
  | instanceOf =>
    cases is
    rw [answersBind]
    exact answersAny fun _ => same
  | arith | cmp =>
    cases is
    simp only [answersBind]
    exact answersAny fun _ => answersAny fun _ => answersAny fun _ => same
  | neg | convert | box | unbox =>
    cases is
    simp only [answersBind]
    exact answersAny fun _ => answersAny fun _ => same
  | narrow =>
    cases is
    rw [answersBind]
    exact answersAny fun _ => same
  | dupX =>
    cases is
    split
    · trivial
    · exact same
  | swap =>
    cases is
    split
    · exact same
    · trivial
  | checkCast =>
    cases is
    split
    · split
      · trivial
      · exact same
    · exact same
  | ifZero c l =>
    cases is
    rw [answersBind]
    exact answersAny fun _ => branchLands m _ _ l _ ls
  | ifCmp c l =>
    cases is
    simp only [answersBind]
    exact answersAny fun _ => answersAny fun _ => branchLands m _ _ l _ ls
  | ifNull l | ifNonNull l =>
    cases is
    rw [answersBind]
    exact answersAny fun _ => branchLands m _ _ l _ ls
  | lookup cases default =>
    cases is
    rw [answersBind]
    exact answersAny fun _ => ⟨rfl, _, rfl⟩
  | throw =>
    cases is
    rw [answersBind]
    exact answersAny fun _ => trivial
  | ret n =>
    cases is
    split
    · exact ⟨n, rfl⟩
    · rw [answersBind]
      exact answersAny fun _ => ⟨n, rfl⟩
  | _ => cases is

theorem turnLands {lib : Library} {fuel depth : Nat} {o : Op} {a : Activation} (w : World) {x : Next}
    (is : (turn lib fuel depth o a w).1 = .ok x) : Lands a.method o a.locals x := by
  unfold turn at is
  rw [stepOpen] at is
  cases known : core w.heap a.method o a.stack a.locals with
  | some r =>
    rw [known] at is
    have lands := coreLands known
    cases r with
    | ok y =>
      cases is
      exact lands
    | error f => cases is
  | none =>
    rw [known] at is
    dsimp only at is
    rcases answer : outer lib (enter (exec lib fuel) depth) (continueWith lib (exec lib fuel)) o a.stack w with ⟨e | s, w'⟩
    · rw [Run.bindError answer] at is
      cases is
    · rw [Run.bindOk answer] at is
      cases is
      exact sparesSame o a.locals

section Exec

variable {lib : Library} {fuel depth : Nat} {a : Activation} {op : Op} {w w' : World}
  (here : a.method.ops[a.pc]? = some op)
include here

theorem execNext {s : Stack} {ls : List Value} (ok : turn lib fuel depth op a w = (.ok (.next s ls), w')) :
    exec lib (fuel + 1) depth a w =
      exec lib fuel depth { a with pc := a.pc + 1, stack := s, locals := ls } w' := by
  unfold turn at ok
  simp only [exec, here, ok]

theorem execJump {pc : Nat} {s : Stack} {ls : List Value}
    (ok : turn lib fuel depth op a w = (.ok (.jump pc s ls), w')) :
    exec lib (fuel + 1) depth a w = exec lib fuel depth { a with pc, stack := s, locals := ls } w' := by
  unfold turn at ok
  simp only [exec, here, ok]

theorem execDone {v : Value} (ok : turn lib fuel depth op a w = (.ok (.done v), w')) :
    exec lib (fuel + 1) depth a w = (.ok v, w') := by
  unfold turn at ok
  simp only [exec, here, ok]

theorem execCaught {f : Fault} {pc : Nat} (failed : turn lib fuel depth op a w = (.error (.fault f), w'))
    (handled : a.method.handlerFor? a.pc f = some pc) :
    exec lib (fuel + 1) depth a w = exec lib fuel depth { a with pc, stack := [.throwable f] } w' := by
  unfold turn at failed
  simp only [exec, here, failed, handled]

theorem execFault {f : Fault} (failed : turn lib fuel depth op a w = (.error (.fault f), w'))
    (unhandled : a.method.handlerFor? a.pc f = none) :
    exec lib (fuel + 1) depth a w = (.error (.fault f), w') := by
  unfold turn at failed
  simp only [exec, here, failed, unhandled]

theorem execNever (stuck : turn lib fuel depth op a w = (.error .never, w')) :
    exec lib (fuel + 1) depth a w = (.error .never, w') := by
  unfold turn at stuck
  simp only [exec, here, stuck]

end Exec

inductive Follows (lib : Library) : Point → Point → Prop
  | next {fuel depth a w op s ls w'} (at_ : a.method.ops[a.pc]? = some op)
      (ok : turn lib fuel depth op a w = (.ok (.next s ls), w')) :
      Follows lib ⟨fuel + 1, depth, a, w⟩ ⟨fuel, depth, { a with pc := a.pc + 1, stack := s, locals := ls }, w'⟩
  | jump {fuel depth a w op pc s ls w'} (at_ : a.method.ops[a.pc]? = some op)
      (ok : turn lib fuel depth op a w = (.ok (.jump pc s ls), w')) :
      Follows lib ⟨fuel + 1, depth, a, w⟩ ⟨fuel, depth, { a with pc, stack := s, locals := ls }, w'⟩
  | caught {fuel depth a w op f pc w'} (at_ : a.method.ops[a.pc]? = some op)
      (failed : turn lib fuel depth op a w = (.error (.fault f), w'))
      (handled : a.method.handlerFor? a.pc f = some pc) :
      Follows lib ⟨fuel + 1, depth, a, w⟩ ⟨fuel, depth, { a with pc, stack := [.throwable f] }, w'⟩

/-- Points that runs do not leave: the next one is among them, and a turn comes out the same whatever the
machine would do with a call that starts at a point outside. -/
structure Closed (lib : Library) (S : Point → Prop) : Prop where
  follows : ∀ {p q}, S p → Follows lib p q → S q
  calls : ∀ {fuel depth a w op}, S ⟨fuel + 1, depth, a, w⟩ → a.method.ops[a.pc]? = some op →
    ∀ run : Nat → Activation → Run Value, (∀ d b v, S ⟨fuel, d, b, v⟩ → run d b v = exec lib fuel d b v) →
      step lib (enter run depth) (continueWith lib run) op a w = turn lib fuel depth op a w

def Always (lib : Library) (P : Point → Prop) (start : Point) : Prop :=
  ∃ S : Point → Prop, S start ∧ Closed lib S ∧ ∀ p, S p → P p

theorem Always.here {lib : Library} {P : Point → Prop} {p : Point} (h : Always lib P p) : P p := by
  obtain ⟨S, start, _, holds⟩ := h
  exact holds p start

theorem Always.next {lib : Library} {P : Point → Prop} {p q : Point} (h : Always lib P p)
    (follows : Follows lib p q) : Always lib P q := by
  obtain ⟨S, start, closed, holds⟩ := h
  exact ⟨S, closed.follows start follows, closed, holds⟩

theorem Closed.inter {lib : Library} {S I : Point → Prop} (closed : Closed lib S)
    (started : ∀ m, lib.Has m → ∀ fuel depth args w, I ⟨fuel, depth, .start m args, w⟩)
    (kept : ∀ {p q}, S p → I p → Follows lib p q → I q) : Closed lib (fun p => S p ∧ I p) := by
  constructor
  · intro p q h follows
    exact ⟨closed.follows h.1 follows, kept h.1 h.2 follows⟩
  · intro fuel depth a w op h at_ run agree
    -- Off the starts of loaded methods, where no call begins, let `run` do what the machine does.
    classical
    let mixed : Nat → Activation → Run Value := fun d b v =>
      if (∃ m args, lib.Has m ∧ b = .start m args) then run d b v else exec lib fuel d b v
    have onStarts : ∀ m, lib.Has m → ∀ d args, mixed d (.start m args) = run d (.start m args) := by
      intro m has d args
      funext v
      exact if_pos ⟨m, args, has, rfl⟩
    have same : step lib (enter mixed depth) (continueWith lib mixed) op a w = turn lib fuel depth op a w := by
      refine closed.calls h.1 at_ mixed ?_
      intro d b v inside
      by_cases start : ∃ m args, lib.Has m ∧ b = .start m args
      · obtain ⟨m, args, has, rfl⟩ := start
        rw [onStarts m has]
        exact agree d _ v ⟨inside, started m has fuel d args v⟩
      · exact if_neg start
    rw [← same, continueWithCongr onStarts]
    have entered : ∀ m, lib.Has m → ∀ args, enter run depth m args = enter mixed depth m args := by
      intro m has args
      exact enterCongr (fun args => (onStarts m has (depth + 1) args).symm) args
    rw [stepCongr entered]

theorem loadedClosed (lib : Library) : Closed lib (fun p => lib.Has p.activation.method) := by
  have everything : Closed lib (fun _ => True) := by
    refine ⟨fun _ _ => trivial, ?_⟩
    intro fuel depth a w op _ _ run agree
    have same : run = exec lib fuel := by
      funext d b v
      exact agree d b v trivial
    rw [same]
    rfl
  have both := everything.inter (I := fun p => lib.Has p.activation.method) (fun _ has _ _ _ _ => has) ?_
  · refine ⟨fun h follows => (both.follows ⟨trivial, h⟩ follows).2, ?_⟩
    intro fuel depth a w op h at_ run agree
    exact both.calls ⟨trivial, h⟩ at_ run fun d b v inside => agree d b v inside.2
  · intro p q _ has follows
    cases follows <;> exact has

/-! ### How deep calls nest -/

theorem enterBounded {run other : Nat → Activation → Run Value}
    (agree : ∀ d b v, d ≤ maxDepth → run d b v = other d b v) (depth : Nat) : enter run depth = enter other depth := by
  funext m args w
  unfold enter
  split
  · rfl
  · next low => exact agree (depth + 1) _ w (Nat.lt_of_not_le low)

theorem depthClosed (lib : Library) : Closed lib (fun p => p.depth ≤ maxDepth) := by
  constructor
  · intro p q low follows
    cases follows <;> exact low
  · intro fuel depth a w op _ _ run agree
    have calls := enterBounded fun d b v low => agree d b v low
    have continuations : continueWith lib run = continueWith lib (exec lib fuel) := by
      funext f v
      unfold continueWith
      rw [calls]
    rw [calls, continuations]
    rfl

def depthExceeded : Fault := .failed "call depth exceeded"

/-- How a caller goes on, at its own depth, from what a call ended with. -/
def resume (lib : Library) (fuel depth : Nat) (a : Activation) (m : MethodRef) :
    Except Stop Value × World → Except Stop Value × World
  | (.ok v, w) =>
    let rest := a.stack.drop m.argSlots
    exec lib fuel depth { a with pc := a.pc + 1, stack := if m.returns.width = 0 then rest else push v rest } w
  | (.error (.fault f), w) => match a.method.handlerFor? a.pc f with
    | some pc => exec lib fuel depth { a with pc, stack := [.throwable f] } w
    | none => (.error (.fault f), w)
  | (.error .never, w) => (.error .never, w)

section Calls

variable {lib : Library} {fuel depth : Nat} {ref : MethodRef} {callee : Method}

theorem turnInvokes {a : Activation} (found : methodNamed lib ref.cls ref.name = .ok callee) :
    turn lib fuel depth (.invoke ref) a = (do
      let v ← enter (exec lib fuel) depth callee (a.stack.take ref.argSlots).reverse
      let rest := a.stack.drop ref.argSlots
      return Next.next (if ref.returns.width = 0 then rest else push v rest) a.locals : Run Next) := by
  funext w
  unfold turn
  rw [stepOpen]
  simp only [core, outer, found, Run.lift, pure_bind, bind_assoc]
  rfl

theorem execInvokes {a : Activation} (here : a.method.ops[a.pc]? = some (.invoke ref))
    (found : methodNamed lib ref.cls ref.name = .ok callee) (w : World) : exec lib (fuel + 1) depth a w =
      resume lib fuel depth a ref (enter (exec lib fuel) depth callee (a.stack.take ref.argSlots).reverse w) := by
  have turns : turn lib fuel depth (.invoke ref) a w = _ := congrFun (turnInvokes found) w
  rcases answer : enter (exec lib fuel) depth callee (a.stack.take ref.argSlots).reverse w with ⟨(f | _) | v, w'⟩
  · rw [Run.bindError answer] at turns
    rw [resume]
    cases handled : a.method.handlerFor? a.pc f with
    | some pc => exact execCaught here turns handled
    | none => exact execFault here turns handled
  · rw [Run.bindError answer] at turns
    exact execNever here turns
  · rw [Run.bindOk answer] at turns
    exact execNext here turns

theorem endlessFaults {self : Method} (first : self.ops[0]? = some (.invoke ref))
    (found : methodNamed lib ref.cls ref.name = .ok self) (open_ : self.handlerFor? 0 depthExceeded = none)
    (enough : maxDepth ≤ depth + fuel) (args : List Value) (w : World) :
    exec lib (fuel + 1) depth (.start self args) w = (.error (.fault depthExceeded), w) := by
  have passes {fuel depth : Nat} {args : List Value} : resume lib fuel depth (.start self args) ref
      (.error (.fault depthExceeded), w) = (.error (.fault depthExceeded), w) := by
    simp only [resume, Activation.start, open_]
  have calls {fuel depth : Nat} {args : List Value} : exec lib (fuel + 1) depth (.start self args) w = _ :=
    execInvokes (a := .start self args) first found w
  induction fuel generalizing depth args with
  | zero =>
    rw [calls, enter, if_pos (show maxDepth ≤ depth from enough)]
    exact passes
  | succ fuel ih =>
    rw [calls, enter]
    split
    · exact passes
    · rw [ih (by omega)]
      exact passes

end Calls

/-- No point of a run lies deeper than the bound, a continuation being a run of its own. A call from there faults, by
whichever operation; any other runs one deeper, and with its value or its fault the caller goes on at its own depth. So
what calls itself without end faults. -/
theorem depthBounded (lib : Library) (fuel : Nat) (m : Method) (args : List Value) (w : World) :
    Always lib (fun p => p.depth ≤ maxDepth) ⟨fuel, 1, .start m (slotsOf args), w⟩ ∧
    (∀ fuel op a, turn lib fuel maxDepth op a =
      step lib (fun _ _ => Run.fault depthExceeded) (continueWith lib (exec lib fuel)) op a) ∧
    (∀ a ref callee, a.method.ops[a.pc]? = some (.invoke ref) → methodNamed lib ref.cls ref.name = .ok callee →
      ∀ fuel depth w', exec lib (fuel + 1) depth a w' = resume lib fuel depth a ref
        (if maxDepth ≤ depth then (.error (.fault depthExceeded), w')
          else exec lib fuel (depth + 1) (.start callee (a.stack.take ref.argSlots).reverse) w')) ∧
    ∀ self ref, self.ops[0]? = some (.invoke ref) → methodNamed lib ref.cls ref.name = .ok self →
      self.handlerFor? 0 depthExceeded = none → ∀ fuel args w', maxDepth ≤ fuel →
        invoke lib fuel self args w' = (.error (.fault depthExceeded), w') := by
  refine ⟨⟨_, (by decide : 1 ≤ maxDepth), depthClosed lib, fun _ low => low⟩, fun _ _ _ => rfl, ?_, ?_⟩
  · intro a ref callee here found fuel depth w'
    rw [execInvokes here found]
    unfold enter
    split <;> rfl
  · intro self ref first found open_ fuel args w' enough
    obtain ⟨rest, rfl⟩ := Nat.exists_eq_add_of_le' (Nat.le_trans (by decide : 1 ≤ maxDepth) enough)
    exact endlessFaults first found open_ (by omega) (slotsOf args) w'

def endless : Method := ⟨⟨"u", "endless", [], .void, true⟩, #[.invoke ⟨"u", "endless", [], .void, true⟩, .ret 0], #[], [], 0, 0⟩

theorem endlessEnds : invoke ⟨[⟨"u", [], [], [endless]⟩]⟩ 1000 endless [] (.empty .empty) =
    (.error (.fault depthExceeded), .empty .empty) :=
  (depthBounded _ 1000 endless [] (.empty .empty)).2.2.2 endless endless.ref rfl rfl rfl 1000 [] _ (by decide)

end Machine

end QueryMachine
