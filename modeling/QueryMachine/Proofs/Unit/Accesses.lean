import QueryMachine.Proofs.Program.Invocation
import QueryMachine.Proofs.Unit.Constructor
import QueryMachine.Proofs.Unit.Generation
import QueryMachine.Proofs.Unit.Property

/-! Objects of struct types as records. What dynamic code reads and writes by the methods of the class is what a list of
values, one for each field, says: a write that is refused changes nothing, and any other changes one value. -/
namespace QueryMachine

namespace Struct

variable {cls name : String} {fields : List (String × Ty)}

/-! ### Records -/

def boxed (h : Heap) : Ty → Value → Except Fault Value
  | .prim p, v => Number.box h p v
  | _, v => .ok v

/-- The field whose name is the same in upper case, and its place. -/
def place? (fields : List (String × Ty)) (name : String) : Option ((String × Ty) × Nat) :=
  fields.zipIdx.find? fun x => Text.Uppercase.text x.1.1 == Text.Uppercase.text name

/-- What dynamic code asks of an object. -/
inductive Access where
  | get (name : String)
  | put (name : String) (given : Value)

namespace Access

def method : Access → String
  | get _ => "get"
  | put _ _ => "put"

def args (a : Address) : Access → List Value
  | get name => [.object a, .string name]
  | put name given => [.object a, .string name, given]

def Given : Access → Prop
  | get _ => True
  | put _ given => given.width = 1

def answer (h : Heap) (fields : List (String × Ty)) (vs : List Value) : Access → Except Fault Value × List Value
  | get name => match place? fields name with
    | some (f, i) => (boxed h f.2 (vs.getD i .null), vs)
    | none => (.error (.propertyNotFound name), vs)
  | put name given => match place? fields name with
    | some (f, i) => match narrowed h f.2 given with
      | .ok x => (.ok .null, vs.set i x)
      | .error fault => (.error fault, vs)
    | none => (.error (.propertyNotFound name), vs)

end Access

theorem boxesIs {h : Heap} {t : Ty} {v b : Value} : v.Boxes h t b ↔ boxed h t v = .ok b := by
  cases t with
  | prim p => exact Iff.rfl
  | _ => exact ⟨fun same => congrArg Except.ok same.symm, fun same => (Except.ok.inj same).symm⟩

theorem placeUpper (fields : List (String × Ty)) (name : String) : upper? fields name = (place? fields name).map (·.1) := by
  unfold upper? place?
  conv_lhs => rw [← List.zipIdx_map_fst 0 fields, List.find?_map]
  rfl

theorem placeAt {f : String × Ty} {i : Nat} (is : place? fields name = some (f, i)) :
    fields[i]? = some f ∧ Text.Uppercase.text f.1 = Text.Uppercase.text name :=
  ⟨List.mem_zipIdx_iff_getElem?.1 (List.mem_of_find?_eq_some is), by simpa using List.find?_some is⟩

theorem placeIff (distinct : (fields.map fun f => Text.Uppercase.text f.1).Nodup) {f : String × Ty} {i : Nat} :
    place? fields name = some (f, i) ↔ fields[i]? = some f ∧ Text.Uppercase.text f.1 = Text.Uppercase.text name := by
  refine ⟨placeAt, fun ⟨at_, upper⟩ => ?_⟩
  cases is : place? fields name with
  | none =>
    have apart := List.find?_eq_none.1 is (f, i) (List.mem_zipIdx_iff_getElem?.2 at_)
    simp [upper] at apart
  | some x =>
    obtain ⟨g, j⟩ := x
    obtain ⟨there, upper'⟩ := placeAt is
    obtain ⟨low, rfl⟩ := List.getElem?_eq_some_iff.1 at_
    obtain ⟨low', rfl⟩ := List.getElem?_eq_some_iff.1 there
    have first : i < (fields.map fun f => Text.Uppercase.text f.1).length := by simpa using low
    have second : j < (fields.map fun f => Text.Uppercase.text f.1).length := by simpa using low'
    have same : (fields.map fun f => Text.Uppercase.text f.1)[i] = (fields.map fun f => Text.Uppercase.text f.1)[j] := by
      simpa using upper.trans upper'.symm
    cases distinct.getElem_inj_iff.1 same
    rfl

theorem placeSame {other : String} (same : Text.Uppercase.text name = Text.Uppercase.text other) :
    place? fields name = place? fields other := by
  unfold place?
  rw [same]

theorem placeApart {other : String} {f g : String × Ty} {i j : Nat}
    (apart : Text.Uppercase.text name ≠ Text.Uppercase.text other) (is : place? fields name = some (f, i))
    (there : place? fields other = some (g, j)) : i ≠ j := by
  rintro rfl
  obtain ⟨at_, upper⟩ := placeAt is
  obtain ⟨at_', upper'⟩ := placeAt there
  cases at_.symm.trans at_'
  exact apart (upper.symm.trans upper')

theorem putAnswers (h : Heap) {vs : List Value} (sized : vs.length = fields.length) (name : String) (given : Value) :
    (∃ f, (Access.put name given).answer h fields vs = (.error f, vs) ∧
      (place? fields name = none ∧ f = .propertyNotFound name ∨ f = .nullPointer ∨ ∃ c, f = .classCast c (h.className given))) ∨
    ∃ i f x, place? fields name = some (f, i) ∧ narrowed h f.2 given = .ok x ∧ (f.2.isPrimitive = false → x = given) ∧
      (Access.put name given).answer h fields vs = (.ok .null, vs.set i x) ∧
      ∀ other h', (Access.get other).answer h' fields (vs.set i x) =
        (if Text.Uppercase.text other = Text.Uppercase.text name then boxed h' f.2 x
          else ((Access.get other).answer h' fields vs).1, vs.set i x) := by
  cases is : place? fields name with
  | none => exact .inl ⟨_, by simp [Access.answer, is], .inl ⟨rfl, rfl⟩⟩
  | some x =>
    obtain ⟨f, i⟩ := x
    obtain ⟨at_, upper⟩ := placeAt is
    cases narrow : narrowed h f.2 given with
    | error fault => exact .inl ⟨fault, by simp [Access.answer, is, narrow], .inr (narrowedFaults narrow)⟩
    | ok x =>
      refine .inr ⟨i, f, x, rfl, narrow, fun reference => narrowedSame reference narrow, by simp [Access.answer, is, narrow], ?_⟩
      intro other h'
      have low : i < vs.length := by
        rw [sized]
        exact (List.getElem?_eq_some_iff.1 at_).1
      split
      · next same => simp [Access.answer, placeSame same, is, low]
      · next apart =>
        cases there : place? fields other with
        | none => simp [Access.answer, there]
        | some y =>
          obtain ⟨g, j⟩ := y
          have ne := placeApart (Ne.symm apart) is there
          simp [Access.answer, there, List.getD_eq_getElem?_getD, List.getElem?_set_ne ne]

end Struct

/-! ### Arguments -/

namespace Machine

theorem fillsLength {v : Value} {t : Ty} (fills : v.Fills t.rep) : (push v []).length = max t.width 1 := by
  have width : v.width = max t.width 1 := by
    unfold Ty.width
    cases rep : t.rep with
    | prim p =>
      rw [rep] at fills
      have width : v.width = p.num.width := Value.rawWidth fills
      rw [width]
      cases p <;> rfl
    | _ =>
      rw [rep] at fills
      exact fills
  rw [pushLength, width]
  exact Nat.zero_add _

end Machine

namespace MethodDraft

theorem Created.arity {fs made : Frames} {receiver : Option Ty} {params : List (String × Ty)} {m : MethodDraft}
    (created : Created fs receiver params m made) : m.locals.length = params.length := by
  have length := congrArg List.length created.locals
  rwa [List.length_map] at length

theorem Created.argumentsAt {fs made fs' : Frames} {params : List (String × Ty)} {m : MethodDraft}
    (created : Created fs none params m made) (grows : made.Grows fs') {vs : List Value}
    (fills : List.Forall₂ (fun p v => v.Fills p.2.rep) params vs) (rest : List Value) :
    List.Forall₂ (fun x v => (Machine.slotsOf vs ++ rest)[x.2]? = some v ∧ v.Fills x.1.2.rep)
      ((params.zip m.locals).map fun x => (x.1, ((Slots.body fs' m.frame).find? x.2).getD 0)) vs := by
  have length := created.arity
  have receiver : m.receiver = none := by
    have := created.receiver
    simpa using this
  have all : m.receiver.toList ++ m.locals = m.locals := by rw [receiver]; rfl
  have types : ∀ (i : Nat) (l : Local), m.locals[i]? = some l → ((fs'.frame m.frame).locals.map (·.2))[i]? = some l.type ∧
      (Slots.body fs' m.frame).find? l = (Emit.layout 0 ((fs'.frame m.frame).locals.map (·.2))).1[i]? := by
    intro i l at_
    obtain ⟨frame, has⟩ := created.has l (by rw [all]; exact List.mem_of_getElem? at_)
    have index := created.indexed i l (by rw [all]; exact at_)
    have here := (has.later grows).here
    rw [index, frame] at here
    refine ⟨?_, ?_⟩
    · rw [List.getElem?_map, here]
      rfl
    · rw [Slots.bodyFinds frame, index]
  have typed : ∀ (i : Nat) (l : Local) p, m.locals[i]? = some l → params[i]? = some p → l.type = p.2 := by
    intro i l p at_ is
    rw [← created.locals, List.getElem?_map, at_] at is
    exact congrArg Prod.snd (Option.some.inj is)
  have sized : ∀ (i : Nat) v, vs[i]? = some v → ∃ t, ((fs'.frame m.frame).locals.map (·.2))[i]? = some t ∧
      (Machine.push v []).length = max t.width 1 := by
    intro i v at_
    obtain ⟨low, is⟩ := List.getElem?_eq_some_iff.1 at_
    have inside : i < params.length := by rwa [fills.length_eq]
    have here : i < m.locals.length := by rwa [length]
    have fits := fills.get inside low
    rw [List.get_eq_getElem, List.get_eq_getElem, is] at fits
    refine ⟨_, (types i _ (List.getElem?_eq_getElem here)).1, ?_⟩
    rw [typed i _ _ (List.getElem?_eq_getElem here) (List.getElem?_eq_getElem inside)]
    exact Machine.fillsLength fits
  refine List.forall₂_iff_get.2 ⟨by simp [length, fills.length_eq], ?_⟩
  intro i low low'
  have inside : i < params.length := by rwa [fills.length_eq]
  have here : i < m.locals.length := by rwa [length]
  obtain ⟨at_, found⟩ := types i _ (List.getElem?_eq_getElem here)
  obtain ⟨slot, laid, _⟩ := layoutGet at_ 0
  refine ⟨?_, by simpa using fills.get inside low'⟩
  have holds : ([] ++ Machine.slotsOf vs ++ rest)[slot]? = some vs[i] :=
    Machine.slotsAt [] sized (List.getElem?_eq_getElem low') laid rfl
  simpa [found, laid] using holds

end MethodDraft

namespace Struct

open Machine

variable {cls name : String} {fields : List (String × Ty)} {s : Session} {lib : Library} {w : World} {a : Address}
  {vs : List Value}

/-! ### Methods -/

section Methods

variable {type : Ty} {made fs : Frames} {h : Heap} {verifying : Bool} {method : Method}

theorem setterRendered {this key value : Local} (reference : type.nonNull.width ≤ 1)
    (grows : (unit cls fields type made).2.Grows fs)
    (own : (putDraft cls type (framesGet cls fields type made)).1.receiver.toList ++
      (putDraft cls type (framesGet cls fields type made)).1.locals = [this, key, value])
    (is : ((putDraft cls type (framesGet cls fields type made)).1.withBody (setterBody cls fields this key value)).render fs h
      verifying = .ok method) : method.handlers = [] ∧
        ∃ held q, method.Spans 0 (dispatchCode fields 1 held (putCode cls 0 2)) q ∧ 2 < held ∧ held < method.maxLocals := by
  have created := putCreated cls fields type made
  have later : (framesPut cls fields type made).Grows fs := (namesCreated cls fields type made).grows.trans grows
  have narrow := created.narrow (fun t is => Option.some.inj is ▸ reference) fun p inside => by
    simp only [List.mem_cons, List.not_mem_nil, or_false] at inside
    rcases inside with rfl | rfl <;> exact Nat.le_refl 1
  obtain ⟨room, slots⟩ := created.slots later narrow
  rw [own] at room slots
  obtain ⟨lays, handlers, _, top⟩ := MethodDraft.renderClosed _ is rfl
    (fun e wrote => (outSetter (slots 0 this rfl) (slots 1 key rfl) (slots 2 value rfl) wrote).mono
      (fun _ _ ⟨k, wrote⟩ => ⟨_, k, wrote, Nat.le_refl _⟩) fun _ h => h) (putDistinct cls fields 0 1 2 _)
  obtain ⟨q, spans, _⟩ := Method.spansAppend.1 lays.spans
  exact ⟨handlers, _, q, spans, room, top⟩

theorem constructorRendered (returns : type.isVoid = false) (grows : (unit cls fields type made).2.Grows fs)
    (is : ((newDraft cls fields type made).1.withBody
      (constructorBody cls fields (newDraft cls fields type made).1.locals)).render fs h verifying = .ok method) :
    method.handlers = [] ∧ ∃ q, method.Spans 0 (newCode cls ((fields.zip (newDraft cls fields type made).1.locals).map
      fun x => (x.1, ((Slots.body fs (newDraft cls fields type made).1.frame).find? x.2).getD 0))) q := by
  have created := newCreated cls fields type made
  have later : (framesNew cls fields type made).Grows fs :=
    ((getCreated cls fields type made).grows.trans
      ((putCreated cls fields type made).grows.trans (namesCreated cls fields type made).grows)).trans grows
  have holds : ∀ l ∈ (newDraft cls fields type made).1.locals, ∃ slot,
      (Slots.body fs (newDraft cls fields type made).1.frame).find? l = some slot := by
    intro l inside
    obtain ⟨slot, holds, _⟩ := placedLater created later l (List.mem_append_right _ inside)
    exact ⟨slot, holds⟩
  obtain ⟨lays, handlers, _⟩ := MethodDraft.renderLaid 0 is rfl returns
    (fun e wrote => (outConstructor holds wrote).mono (fun _ _ wrote => ⟨_, 0, wrote, Nat.zero_le _⟩) fun _ h => h)
    (by rw [newUnlabelled]; exact List.nodup_nil)
  exact ⟨handlers, _, lays.spans⟩

theorem namesRendered (is : ((namesDraft cls type made).1.withBody (namesBody fields)).render fs h verifying = .ok method) :
    method.handlers = [] ∧ ∃ q, method.Spans 0 (namesCode (fields.map (·.1))) q := by
  obtain ⟨lays, handlers, _⟩ := MethodDraft.renderLaid 0 is rfl rfl
    (fun e wrote => (outNames wrote).mono (fun _ _ wrote => ⟨_, 0, wrote, Nat.zero_le _⟩) fun _ h => h)
    (by rw [namesUnlabelled]; exact List.nodup_nil)
  exact ⟨handlers, _, lays.spans⟩

end Methods

end Struct

/-! ### Calls -/

namespace Machine

/-- What a method that is called by its name comes to on arguments, once there is fuel enough. -/
def Calls (lib : Library) (cls name : String) (args : List Value) (w : World) (q : Except Fault Value) (w' : World) : Prop :=
  ∃ k, ∀ fuel, invokeNamed lib (fuel + k) cls name args w = (q.mapError .fault, w')

theorem callsOf {lib : Library} {cls name : String} {args : List Value} {w w' : World} {q : Except Fault Value} {c : Class}
    {m : Method} (found : lib.class? cls = some c) (named : c.method? name = some m) (unguarded : m.handlers = [])
    (finishes : Thread.Finishes ⟨lib, m, 1, unguarded⟩ ⟨0, [], localsOf m (slotsOf args), w⟩ q w') :
    Calls lib cls name args w q w' := by
  obtain ⟨k, ends⟩ := finishes
  refine ⟨k, fun fuel => ?_⟩
  have known : methodNamed lib cls name = .ok m := by
    unfold methodNamed classNamed
    rw [found]
    simp only [named, bind, Except.bind]
  unfold invokeNamed
  rw [known]
  exact ends fuel

end Machine

namespace Struct

open Machine

variable {cls name : String} {fields : List (String × Ty)} {lib : Library} {w : World} {a : Address} {vs : List Value}

/-- At an address lies an object with a value for each field. -/
structure Keeps (cls : String) (fields : List (String × Ty)) (w : World) (a : Address) (vs : List Value) : Prop where
  here : w.heap.objects[a]? = some ⟨cls, fields.map (·.1), vs⟩
  fills : List.Forall₂ (fun f v => v.Fills f.2.rep) fields vs

def recorded (cls : String) (fields : List (String × Ty)) (w : World) (a : Address) (vs : List Value) : World :=
  { w with heap := w.heap.setObject a ⟨cls, fields.map (·.1), vs⟩ }

/-- Accesses of an object one after the other, each with the answer of the record. -/
inductive Answered (lib : Library) (cls : String) (fields : List (String × Ty)) (a : Address) :
    List Access → World → List Value → World → List Value → Prop
  | nil {w : World} {vs : List Value} : Answered lib cls fields a [] w vs w vs
  | cons {u : Access} {us : List Access} {w w' : World} {vs vs' : List Value} :
    Calls lib cls u.method (u.args a) w (u.answer w.heap fields vs).1 (recorded cls fields w a (u.answer w.heap fields vs).2) →
      Answered lib cls fields a us (recorded cls fields w a (u.answer w.heap fields vs).2) (u.answer w.heap fields vs).2 w' vs' →
        Answered lib cls fields a (u :: us) w vs w' vs'

/-- The methods of a class keep records. -/
structure Faithful (lib : Library) (cls : String) (fields : List (String × Ty)) : Prop where
  makes : ∀ w vs, List.Forall₂ (fun f v => v.Fills f.2.rep) fields vs →
    Calls lib cls "new" vs w (.ok (.object w.heap.objects.size))
      { w with heap := (w.heap.newObject ⟨cls, fields.map (·.1), vs⟩).2 }
  lists : ∀ w a, Calls lib cls "field_names" [.object a] w (.ok (.list w.heap.lists.size))
    { w with heap := (w.heap.newList ((fields.map (·.1)).map Value.string).toArray).2 }
  answers : ∀ w a vs, Keeps cls fields w a vs → ∀ u : Access, u.Given →
    Calls lib cls u.method (u.args a) w (u.answer w.heap fields vs).1 (recorded cls fields w a (u.answer w.heap fields vs).2)

theorem Keeps.same (keeps : Keeps cls fields w a vs) : recorded cls fields w a vs = w := by
  obtain ⟨low, is⟩ := Array.getElem?_eq_some_iff.1 keeps.here
  unfold recorded Heap.setObject
  rw [← is, Array.setIfInBounds, dif_pos low, Array.set_getElem_self]

theorem Keeps.object (keeps : Keeps cls fields w a vs) : w.heap.object a = ⟨cls, fields.map (·.1), vs⟩ := by
  unfold Heap.object
  rw [Array.getD_eq_getD_getElem?, keeps.here]
  rfl

theorem newKeeps (w : World) (fills : List.Forall₂ (fun f v => v.Fills f.2.rep) fields vs) :
    Keeps cls fields { w with heap := (w.heap.newObject ⟨cls, fields.map (·.1), vs⟩).2 } w.heap.objects.size vs :=
  ⟨Array.getElem?_push_size, fills⟩

theorem Keeps.again (keeps : Keeps cls fields w a vs) {vs' : List Value}
    (fills : List.Forall₂ (fun f v => v.Fills f.2.rep) fields vs') : Keeps cls fields (recorded cls fields w a vs') a vs' := by
  have low := (Array.getElem?_eq_some_iff.1 keeps.here).1
  exact ⟨Array.getElem?_setIfInBounds_self_of_lt low, fills⟩

theorem answerFills (h : Heap) (fills : List.Forall₂ (fun f v => v.Fills f.2.rep) fields vs) {u : Access} (given : u.Given) :
    List.Forall₂ (fun f v => v.Fills f.2.rep) fields (u.answer h fields vs).2 := by
  cases u with
  | get name =>
    simp only [Access.answer]
    split <;> exact fills
  | put name v =>
    simp only [Access.answer]
    split
    · next f i is =>
      split
      · next x narrow =>
        refine List.forall₂_iff_get.2 ⟨fills.length_eq.trans List.length_set.symm, ?_⟩
        intro j low low'
        rw [List.get_eq_getElem, List.get_eq_getElem, List.getElem_set]
        split
        · next same =>
          subst same
          obtain ⟨_, at_⟩ := List.getElem?_eq_some_iff.1 (placeAt is).1
          rw [at_]
          exact narrowedFills given narrow
        · exact fills.get low (by simpa using low')
      · exact fills
    · exact fills

theorem Faithful.interleaves (faithful : Faithful lib cls fields) (keeps : Keeps cls fields w a vs) {us : List Access}
    (given : ∀ u ∈ us, u.Given) : ∃ w' vs', Answered lib cls fields a us w vs w' vs' ∧ Keeps cls fields w' a vs' := by
  induction us generalizing w vs with
  | nil => exact ⟨w, vs, .nil, keeps⟩
  | cons u us ih =>
    rw [List.forall_mem_cons] at given
    have calls := faithful.answers w a vs keeps u given.1
    obtain ⟨w', vs', answered, keeps'⟩ := ih (keeps.again (answerFills w.heap keeps.fills given.1)) given.2
    exact ⟨w', vs', .cons calls answered, keeps'⟩

section Loaded

variable {s : Session} {type : Ty} {made : Frames} {c : Class}

theorem Keeps.field (keeps : Keeps cls fields w a vs) (distinct : (fields.map (·.1)).Nodup) {f : String × Ty} {i : Nat}
    (at_ : fields[i]? = some f) : ∃ v, vs[i]? = some v ∧ v.Fills f.2.rep ∧ (w.heap.object a).get? f.1 = some v ∧
      ∀ x, (w.heap.object a).put? f.1 x = some ⟨cls, fields.map (·.1), vs.set i x⟩ := by
  obtain ⟨low, is⟩ := List.getElem?_eq_some_iff.1 at_
  have low' : i < vs.length := keeps.fills.length_eq ▸ low
  have fills := keeps.fills.get low low'
  rw [List.get_eq_getElem, List.get_eq_getElem, is] at fills
  have slot : Instance.slot? ⟨cls, fields.map (·.1), vs⟩ f.1 = some i :=
    Instance.slotIs distinct (by rw [List.getElem?_map, at_]; rfl)
  rw [keeps.object]
  refine ⟨vs[i], List.getElem?_eq_getElem low', fills, ?_, fun x => ?_⟩
  · rw [Instance.get?, slot, Option.map_some, List.getElem?_eq_getElem low']
    rfl
  · rw [Instance.put?, slot]
    rfl

theorem getAnswered {m : Method} (getter : Getter lib cls fields m) (found : lib.class? cls = some c)
    (distinct : (fields.map (·.1)).Nodup) (keeps : Keeps cls fields w a vs) (name : String) :
    Calls lib cls "get" [.object a, .string name] w ((Access.get name).answer w.heap fields vs).1
      (recorded cls fields w a ((Access.get name).answer w.heap fields vs).2) := by
  have named : c.method? "get" = some m := by
    have here := getter.found
    unfold Library.method? at here
    rw [found] at here
    exact here
  have runs := getterRuns getter 1 w a name
  rw [placeUpper] at runs
  cases is : place? fields name with
  | none =>
    rw [is] at runs
    have answer : (Access.get name).answer w.heap fields vs = (.error (.propertyNotFound name), vs) := by
      simp only [Access.answer, is]
    rw [answer, keeps.same]
    exact callsOf found named getter.unguarded runs
  | some x =>
    obtain ⟨f, i⟩ := x
    rw [is] at runs
    obtain ⟨v, here, fills, read, _⟩ := keeps.field distinct (placeAt is).1
    obtain ⟨b, boxes⟩ := fills.boxes w.heap
    have answer : (Access.get name).answer w.heap fields vs = (.ok b, vs) := by
      simp only [Access.answer, is, List.getD_eq_getElem?_getD, here, Option.getD_some, boxesIs.1 boxes]
    rw [answer, keeps.same]
    exact callsOf found named getter.unguarded (runs v b read fills boxes)

theorem putAnswered {m : Method} (found : lib.class? cls = some c) (named : c.method? "put" = some m)
    (unguarded : m.handlers = [])
    (code : ∃ held q, m.Spans 0 (dispatchCode fields 1 held (putCode cls 0 2)) q ∧ 2 < held ∧ held < m.maxLocals)
    (distinct : (fields.map (·.1)).Nodup) (keeps : Keeps cls fields w a vs) (name : String) {v : Value} (narrow : v.width = 1) :
    Calls lib cls "put" [.object a, .string name, v] w ((Access.put name v).answer w.heap fields vs).1
      (recorded cls fields w a ((Access.put name v).answer w.heap fields vs).2) := by
  obtain ⟨held, q, spans, after, low⟩ := code
  have slots : slotsOf [.object a, .string name, v] = [.object a, .string name, v] := by
    rw [slotsCons, slotsCons, slotsCons, pushOne narrow]
    rfl
  have room : held < (localsOf m [.object a, .string name, v]).length := Nat.lt_of_lt_of_le low (localsRoom m _)
  have finishes := setterFinishes (θ := ⟨lib, m, 1, unguarded⟩) (w := w) spans room ⟨by omega, by omega, after⟩ rfl rfl rfl narrow
  rw [placeUpper] at finishes
  refine callsOf found named unguarded ?_
  rw [slots]
  cases is : place? fields name with
  | none =>
    rw [is] at finishes
    simp only [Access.answer, is, keeps.same]
    exact finishes
  | some x =>
    obtain ⟨f, i⟩ := x
    rw [is] at finishes
    obtain ⟨_, _, _, _, changed⟩ := keeps.field distinct (placeAt is).1
    cases answer : narrowed w.heap f.2 v with
    | ok x =>
      simp only [Option.map_some, answer] at finishes
      simp only [Access.answer, is, answer]
      exact finishes _ (changed x)
    | error fault =>
      simp only [Option.map_some, answer] at finishes
      simp only [Access.answer, is, answer, keeps.same]
      exact finishes

theorem unitFaithful (reference : type.nonNull.width ≤ 1) (returns : type.isVoid = false)
    (distinct : (fields.map (·.1)).Nodup)
    (renders : (unit cls fields type made).1.render s.frames s.heap s.config.verify = .ok c)
    (grows : (unit cls fields type made).2.Grows s.frames) (found : lib.class? cls = some c) : Faithful lib cls fields := by
  obtain ⟨this, key, this', key', value, own, own', drafts⟩ := unitMethods cls fields type made
  have inside : ∀ m ∈ (unit cls fields type made).1.methods, ∃ method, c.method? m.ref.name = some method ∧
      m.render s.frames s.heap s.config.verify = .ok method := fun m inside => unitMethodFound renders inside
  rw [drafts] at inside
  simp only [List.forall_mem_cons, List.not_mem_nil, false_implies, implies_true, and_true] at inside
  obtain ⟨⟨new, newFound, newIs⟩, ⟨get, getFound, getIs⟩, ⟨put, putFound, putIs⟩, names, namesFound, namesIs⟩ := inside
  refine ⟨?_, ?_, ?_⟩
  · intro w vs fills
    obtain ⟨unguarded, q, spans⟩ := constructorRendered returns grows newIs
    obtain ⟨_, same⟩ := UnitDraft.renderIs renders
    have created := newCreated cls fields type made
    have later : (framesNew cls fields type made).Grows s.frames :=
      ((getCreated cls fields type made).grows.trans
        ((putCreated cls fields type made).grows.trans (namesCreated cls fields type made).grows)).trans grows
    have length := created.arity
    have instantiated : c.instantiate = ⟨cls, fields.map (·.1), fields.map fun f => Class.initial f.2.rep⟩ := by
      rw [same]
      show (⟨cls, (fields.map fun f => (f.1, f.2.rep)).map (·.1),
        (fields.map fun f => (f.1, f.2.rep)).map fun f => Class.initial f.2⟩ : Instance) = _
      rw [List.map_map, List.map_map]
      rfl
    refine callsOf found newFound unguarded ?_
    refine newFinishes (θ := ⟨lib, new, 1, unguarded⟩) found instantiated ?_ distinct ?_
      (created.argumentsAt later fills (List.replicate (new.maxLocals - (slotsOf vs).length) .null)) spans
    · rw [List.map_map]
      change fields.map (·.1) = (fields.zip (newDraft cls fields type made).1.locals).map (Prod.fst ∘ Prod.fst)
      rw [← List.map_map, List.map_fst_zip (Nat.le_of_eq length.symm)]
    · simp [length]
  · intro w a
    obtain ⟨unguarded, q, spans⟩ := namesRendered namesIs
    exact callsOf found namesFound unguarded (namesFinish (θ := ⟨lib, names, 1, unguarded⟩) spans)
  · intro w a vs keeps u given
    cases u with
    | get name =>
      obtain ⟨unguarded, lays⟩ := getterRendered reference grows own getIs
      have getter : Getter lib cls fields get := ⟨by unfold Library.method?; rw [found]; exact getFound, unguarded, lays⟩
      exact getAnswered getter found distinct keeps name
    | put name v =>
      obtain ⟨unguarded, code⟩ := setterRendered reference grows own' putIs
      exact putAnswered found putFound unguarded code distinct keeps name given

theorem unitRenders (reference : type.width = 1) (sized : ∀ f ∈ fields, f.2 ≠ .void)
    (grows : (unit cls fields type made).2.Grows s.frames) :
    QueryMachine.Answers ((unit cls fields type made).1.render s.frames s.heap s.config.verify)
      (fun _ => (unit cls fields type made).1.Fits s.frames)
      fun r => r.error = .of .overflow ∧ ¬ (unit cls fields type made).1.Fits s.frames := by
  have ready : ∀ m ∈ (unit cls fields type made).1.methods,
      m.Ready (fun _ => False) (fun _ => True) (unit cls fields type made).2 fun _ _ _ => True :=
    unitReady trivial sized reference
  have answers := Load.renderAnswers (s := s) (u := (unit cls fields type made).1)
    (E := fun err => err = .of .overflow ∧ ¬ (unit cls fields type made).1.Fits s.frames) fun m inside => by
      have rendered := ready m inside s.frames grows s.heap s.config.verify
      cases is : m.render s.frames s.heap s.config.verify with
      | ok method => trivial
      | error r =>
        rw [is] at rendered
        obtain ⟨overflow, wide⟩ := rendered.resolve_left id
        exact ⟨overflow, fun fits => wide (fits m inside)⟩
  refine answers.mono (fun c renders m inside => ?_) fun _ h => h
  obtain ⟨method, _, rendered⟩ := Load.pairedRight renders.methods inside
  exact MethodDraft.renderFits rendered

end Loaded

/-- Objects of a struct type are records. There are slots for the methods of the type if there are for its fields, and nothing
is added to the frames of the methods. Then the unit of the type is rendered to a class, which is the class that is loaded,
and wherever this class is known its methods make records, list their names and answer each access as a record does. -/
theorem accessorsKeepRecords {s s₁ s₂ : Session} {t : Ty} (fresh : s.structs.lookup fields = none)
    (typed : type fields s = (.ok t, s₁)) (sized : ∀ f ∈ fields, f.2 ≠ .void) (frames : s₁.frames.Grows s₂.frames) :
    ∃ cls, t = .struct false cls fields ∧
      (∀ name f i, place? fields name = some (f, i) ↔
        fields[i]? = some f ∧ Text.Uppercase.text f.1 = Text.Uppercase.text name) ∧
      (∀ (h : Heap) (vs : List Value), vs.length = fields.length → ∀ name given,
        (∃ f, (Access.put name given).answer h fields vs = (.error f, vs) ∧
          (place? fields name = none ∧ f = .propertyNotFound name ∨ f = .nullPointer ∨
            ∃ c, f = .classCast c (h.className given))) ∨
        ∃ i f x, place? fields name = some (f, i) ∧ narrowed h f.2 given = .ok x ∧ (f.2.isPrimitive = false → x = given) ∧
          (Access.put name given).answer h fields vs = (.ok .null, vs.set i x) ∧
          ∀ other h', (Access.get other).answer h' fields (vs.set i x) =
            (if Text.Uppercase.text other = Text.Uppercase.text name then boxed h' f.2 x
              else ((Access.get other).answer h' fields vs).1, vs.set i x)) ∧
      ∃ u ∈ s₁.units,
        ((∀ m ∈ u.methods, s₂.frames.frame m.frame = s₁.frames.frame m.frame) →
          (u.Fits s₂.frames ↔ (fields.map fun f => f.2.width).sum ≤ Emitter.slotLimit)) ∧
        (u.Fits s₂.frames → ∃ c, u.render s₂.frames s₂.heap s₂.config.verify = .ok c ∧
          (∀ l s₃, s₁.units ⊆ s₂.units → Load.build s₂ = (.ok l, s₃) → l.library.class? cls = some c) ∧
          ∀ lib, lib.class? cls = some c → Faithful lib cls fields ∧
            ∀ w vs, List.Forall₂ (fun f v => v.Fills f.2.rep) fields vs → ∃ a w₀,
              Calls lib cls "new" vs w (.ok (.object a)) w₀ ∧ Keeps cls fields w₀ a vs ∧
              ∀ us : List Access, (∀ u ∈ us, u.Given) →
                ∃ w' vs', Answered lib cls fields a us w₀ vs w' vs' ∧ Keeps cls fields w' a vs') := by
  obtain ⟨cls, rfl, distinct, unit_, framed⟩ := (typeBrings fresh).ok typed
  have grows := framed ▸ frames
  refine ⟨cls, rfl, fun name f i => placeIff distinct, fun h vs length => putAnswers h length, _, unit_, ?_, fun fits => ?_⟩
  · intro own
    rw [framed] at own
    exact unitFits sized rfl (Nat.le_refl 1) grows own
  have rendered := unitRenders (s := s₂) rfl sized grows
  rcases renders : UnitDraft.render s₂.frames s₂.heap s₂.config.verify
    (unit cls fields (.struct false cls fields) s.frames).1 with r | c
  · rw [renders] at rendered
    exact absurd fits rendered.2
  refine ⟨c, rfl, ?_, ?_⟩
  · intro l s₃ units built
    obtain ⟨classes, from_⟩ := (Load.buildFrom s₂).ok built
    obtain ⟨c', renders', found⟩ := unitLoaded from_ (units unit_)
    cases renders.symm.trans renders'
    exact found
  · intro lib found
    have reference : (Ty.struct false cls fields).nonNull.width ≤ 1 := Nat.le_refl 1
    have faithful := unitFaithful reference rfl (namesDistinct distinct) renders grows found
    refine ⟨faithful, fun w vs fills => ⟨_, _, faithful.makes w vs fills, newKeeps w fills, fun us given => ?_⟩⟩
    exact faithful.interleaves (newKeeps w fills) given

/-- A point is made, one of its fields is changed and the other is not, and both are read. -/
theorem pointKept : ∃ s l s', type points (.new .default .empty) = (.ok (.struct false "struct_0" points), s) ∧
    Load.build s = (.ok l, s') ∧ ∃ a w, Calls l.library "struct_0" "new" [.int 3, .long 4] (.empty .empty) (.ok (.object a)) w ∧
      ∃ w' vs, Answered l.library "struct_0" points a
          [.put "y" (.boxed (.long 9)), .put "x" .null] w [.int 3, .long 4] w' vs ∧ vs = [.int 3, .long 9] ∧
        Calls l.library "struct_0" "get" [.object a, .string "Y"] w' (.ok (.boxed (.long 9))) w' ∧
        Calls l.library "struct_0" "put" [.object a, .string "x", .null] w' (.error .nullPointer) w' := by
  have typed : type points (.new .default .empty) =
      (.ok (.struct false "struct_0" points), (type points (.new .default .empty)).2) := rfl
  have builds : (Load.build (type points (.new .default .empty)).2).1.isOk = true := by decide +kernel
  rcases built : Load.build (type points (.new .default .empty)).2 with ⟨err | l, s'⟩
  · rw [built] at builds
    contradiction
  have sized : ∀ f ∈ points, f.2 ≠ .void := by decide
  have first : place? points "x" = some (("x", .int32), 0) := by decide +kernel
  have second : place? points "y" = some (("Y", .int64), 1) := by decide +kernel
  have second' : place? points "Y" = some (("Y", .int64), 1) := by decide +kernel
  obtain ⟨_, same, _, _, u, _, slots, rendered⟩ := accessorsKeepRecords rfl typed sized (.refl _)
  cases same
  obtain ⟨c, _, loads, keeps⟩ := rendered ((slots fun _ _ => rfl).2 (by decide))
  obtain ⟨faithful, makes⟩ := keeps l.library (loads l s' (List.Subset.refl _) built)
  obtain ⟨a, w, made, _, answers⟩ := makes (.empty .empty) [.int 3, .long 4] (.cons rfl (.cons rfl .nil))
  have put : ∀ h, (Access.put "y" (.boxed (.long 9))).answer h points [.int 3, .long 4] = (.ok .null, [.int 3, .long 9]) := by
    intro h
    simp only [Access.answer, second]
    rfl
  have refused : ∀ h, (Access.put "x" .null).answer h points [.int 3, .long 9] = (.error .nullPointer, [.int 3, .long 9]) := by
    intro h
    simp only [Access.answer, first]
    rfl
  have read : ∀ h, (Access.get "Y").answer h points [.int 3, .long 9] = (.ok (.boxed (.long 9)), [.int 3, .long 9]) := by
    intro h
    simp only [Access.answer, second']
    rfl
  obtain ⟨w', vs, answered, kept⟩ := answers [.put "y" (.boxed (.long 9)), .put "x" .null]
    (List.forall_mem_cons.2 ⟨rfl, List.forall_mem_singleton.2 rfl⟩)
  have left : vs = [.int 3, .long 9] := by
    cases answered with
    | cons _ rest =>
      cases rest with
      | cons _ rest =>
        cases rest
        rw [put, refused]
  subst left
  refine ⟨_, l, s', typed, built, a, w, made, w', _, answered, rfl, ?_, ?_⟩
  · have reads := faithful.answers w' a _ kept (.get "Y") trivial
    rwa [read, kept.same] at reads
  · have puts := faithful.answers w' a _ kept (.put "x" .null) rfl
    rwa [refused, kept.same] at puts

theorem crowdedFields {s s₁ : Session} {t : Ty} (fresh : s.structs.lookup fields = none)
    (typed : type fields s = (.ok t, s₁)) (sized : ∀ f ∈ fields, f.2 ≠ .void)
    (many : Emitter.slotLimit < (fields.map fun f => f.2.width).sum) :
    (∃ u ∈ s₁.units, ∃ f, u.render s₁.frames s₁.heap s₁.config.verify = .error f ∧ f.error = .of .overflow) ∧
      ∀ l s₂, Load.build s₁ ≠ (.ok l, s₂) := by
  obtain ⟨cls, rfl, _, unit_, framed⟩ := (typeBrings fresh).ok typed
  have grows : (unit cls fields (.struct false cls fields) s.frames).2.Grows s₁.frames := framed ▸ .refl _
  have narrow : (Ty.struct false cls fields).nonNull.width ≤ 1 := Nat.le_refl 1
  have wide : ¬ (unit cls fields (.struct false cls fields) s.frames).1.Fits s₁.frames := fun fits =>
    Nat.not_le_of_lt many ((unitFits sized rfl narrow grows fun _ _ => by rw [framed]).1 fits)
  have rendered := unitRenders (s := s₁) rfl sized grows
  rcases renders : UnitDraft.render s₁.frames s₁.heap s₁.config.verify
    (unit cls fields (.struct false cls fields) s.frames).1 with r | c
  · rw [renders] at rendered
    refine ⟨⟨_, unit_, r, renders, rendered.1⟩, fun l s₂ built => ?_⟩
    obtain ⟨classes, from_⟩ := (Load.buildFrom s₁).ok built
    obtain ⟨c, loaded, _⟩ := unitLoaded from_ unit_
    cases renders.symm.trans loaded
  · rw [renders] at rendered
    exact absurd rendered wide

theorem upperNumber (n : Nat) : Text.Uppercase.text (toString n) = toString n := by
  have digits : (toString n).toList = Nat.toDigits 10 n := Nat.toList_repr
  have ascii : ∀ c ∈ Nat.toDigits 10 n, c.toNat < 0x80 ∧ c.toUpper = c := by
    intro c inside
    have digit := Nat.isDigit_of_mem_toDigits (by decide) (by decide) inside
    have low : c.toNat < 0x80 := by
      rw [Char.isDigit, Bool.and_eq_true, decide_eq_true_eq, decide_eq_true_eq] at digit
      exact Nat.lt_of_le_of_lt (UInt32.le_iff_toNat_le.1 digit.2) (by decide)
    have all : ∀ n : Fin 0x80, (Char.ofNat n).isDigit = true → (Char.ofNat n).toUpper = Char.ofNat n := by decide
    have here := all ⟨c.toNat, low⟩
    rw [Char.ofNat_toNat] at here
    exact ⟨low, here digit⟩
  unfold Text.Uppercase.text
  rw [digits, Text.upperAscii fun c inside => (ascii c inside).1, List.map_congr_left fun c inside => (ascii c inside).2,
    List.map_id', ← digits, String.ofList_toList]

def manyFields : List (String × Ty) := (List.range 32768).map fun i => (toString i, .int64)

/-- The type of too many fields is handed out, and nothing can be made of it. -/
theorem manyFieldsOverflow : ∃ t s, type manyFields (.new .default .empty) = (.ok t, s) ∧ (∀ f ∈ manyFields, f.2 ≠ .void) ∧
    (∃ u ∈ s.units, ∃ f, u.render s.frames s.heap s.config.verify = .error f ∧ f.error = .of .overflow) ∧
      ∀ l s', Load.build s ≠ (.ok l, s') := by
  have apart : repeated? [] (manyFields.map (·.1)) = none := by
    refine unrepeated.2 ⟨?_, fun _ _ => List.not_mem_nil⟩
    unfold manyFields
    rw [List.map_map, List.map_map]
    refine List.Nodup.map ?_ List.nodup_range
    intro m n same
    simp only [Function.comp_apply, upperNumber] at same
    exact numberInj same
  have sized : ∀ f ∈ manyFields, f.2 ≠ .void := by
    intro f inside
    obtain ⟨_, _, rfl⟩ := List.mem_map.1 inside
    exact nofun
  have many : Emitter.slotLimit < (manyFields.map fun f => f.2.width).sum := by
    unfold manyFields
    rw [List.map_map, show ((fun f : String × Ty => f.2.width) ∘ fun i : Nat => (toString i, Ty.int64)) = fun _ => 2 from rfl,
      List.map_const', List.length_range, List.sum_replicate_nat]
    decide
  have answers := typeAnswers (s := .new .default .empty) rfl manyFields
  rcases typed : type manyFields (.new .default .empty) with ⟨err | t, s⟩
  · rw [typed] at answers
    cases answers with
    | repeated clash => exact nomatch apart.symm.trans clash
    | refused _ _ why =>
      obtain full | there := why
      · unfold Session.Full at full
        exact absurd full (by decide)
      · exact absurd there Bool.false_ne_true
  · exact ⟨t, s, rfl, sized, crowdedFields rfl typed sized many⟩

end Struct

end QueryMachine
