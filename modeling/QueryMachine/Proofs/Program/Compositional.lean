import QueryMachine.Program.Lowering
import QueryMachine.Proofs.Build.Loop
import QueryMachine.Proofs.Build.Operands
import QueryMachine.Proofs.Build.Record
import QueryMachine.Proofs.Session

/-! What is said of the code of an operator tree, put together from what is said of its parts. There is one rule for
each way in which builders put code together, and lowering needs no others. -/
namespace QueryMachine

open Build Conversion

structure Account where
  root : FrameId
  base : Nat
  param : Local → Prop
  named : String → Prop
  castable : Ty → Ty → Prop
  refuses : Error → Prop
  tells : Session → List Local → Ty → Slots → Asm → Prop

namespace Account

variable (Z : Account)

def Readable (items : List Local) (l : Local) : Prop := l ∈ items ∨ Z.param l

def Scratch (held : Local) : Prop := held.frame = Z.root ∧ Z.base ≤ held.index

structure Compositional : Prop where
  later {s s' : Session} {items : List Local} {t : Ty} {σ : Slots} {X : Asm} :
    s.Later s' → Z.tells s items t σ X → Z.tells s' items t σ X
  inline {s : Session} {items : List Local} {v w : Value} {σ : Slots} :
    Constants.inline? v = some w → Z.tells s items (s.heap.literalType v) σ [.op (.const w)]
  null {s : Session} {items : List Local} {t : Ty} {σ : Slots} : Z.tells s items t.boxed.orNull σ [.op .constNull]
  static {s : Session} {items : List Local} {k : Hoisted} {σ : Slots} :
    k ∈ s.constants.hoisted → Z.tells s items k.type σ [.op (.getStatic k.field)]
  read {s : Session} {items : List Local} {l : Local} {σ : Slots} {X : Asm} :
    Z.Readable items l → Read l σ X → Z.tells s items l.type σ X
  negation {s : Session} {items : List Local} {t : Ty} {σ : Slots} {X : Asm} :
    Chosen (Z.tells s items t) t 0 1 σ X → Z.tells s items .boolean σ X
  conjunction {s : Session} {items : List Local} {xs : List Expr} {f done : Label} {σ : Slots} {B : Asm} :
    Each (fun x => Tests (Z.tells s items x.type) x.type f σ) xs B →
      Z.tells s items .boolean σ (B ++ Asm.choice 1 0 f done)
  disjunction {s : Session} {items : List Local} {xs : List Expr} {t done : Label} {σ : Slots} {B : Asm} :
    Each (fun x => Leaves (Z.tells s items x.type) x.type t σ) xs B →
      Z.tells s items .boolean σ (B ++ Asm.choice 0 1 t done)
  nullTold {s : Session} {items : List Local} {t : Ty} {σ : Slots} {X : Asm} :
    NullTold (Z.tells s items t) t σ X → Z.tells s items .boolean σ X
  coalesced {s : Session} {items : List Local} {xs : List Expr} {type : Ty} {done : Label} {σ : Slots} {B : Asm} :
    Coalesced id xs type → Each (fun x => Offers (Z.tells s items x.type) type x.type done σ) (upTo id xs) B →
      Z.tells s items type σ (B ++ (if terminal id (upTo id xs) then [] else [.op .constNull]) ++ [.mark done])
  selected {s : Session} {items : List Local} {test yes no : Ty} {σ : Slots} {X : Asm} :
    Selected (Z.tells s items test) (Z.tells s items yes) (Z.tells s items no) test yes no σ X →
      Z.tells s items (Ty.unify yes no) σ X
  computed {s : Session} {items : List Local} {a : Arith} {p : Prim} {left right : Ty} {σ : Slots} {X : Asm} :
    Operands.numeric? left right = some p → Computed (Z.tells s items left) (Z.tells s items right) a p left right σ X →
      Z.tells s items (resultType p (left.isNullable || right.isNullable)) σ X
  negated {s : Session} {items : List Local} {p : Prim} {t : Ty} {σ : Slots} {X : Asm} :
    t.prim? = some p → p ≠ .boolean → Negated (Z.tells s items t) p t σ X →
      Z.tells s items (resultType p t.isNullable) σ X
  compared {s : Session} {items : List Local} {left right : Ty} {location : Location} {σ : Slots} {X : Asm} :
    Compared (Z.tells s items left) (Z.tells s items right) left right location σ X → Z.tells s items .int32 σ X
  decided {s : Session} {items : List Local} {left right : Ty} {decide : Label → List Op} {σ : Slots} {X : Asm} :
    Decided (Z.tells s items left) (Z.tells s items right) left right decide σ X → Z.tells s items .boolean σ X
  property {s : Session} {items : List Local} {t type : Ty} {a : PropertyAccess} {name : String} {σ : Slots} {X : Asm} :
    PropertyAccess.of? t = some a → a.type name = .ok type →
      Followed (Z.tells s items t) (Gets a name type) σ X → Z.tells s items type σ X
  propertyHeld {s : Session} {items : List Local} {t type : Ty} {a : PropertyAccess} {name : String} {held : Local}
      {σ : Slots} {X : Asm} :
    PropertyAccess.of? t = some a → a.type name = .ok type → Z.Scratch held → held.type = t.nonNull →
      Guarded (Z.tells s items t) (Followed (Read held) (Gets a name type)) t type held σ X →
        Z.tells s items type.boxed.orNull σ X
  index {s : Session} {items : List Local} {t key : Ty} {a : IndexAccess} {σ : Slots} {X : Asm} :
    IndexAccess.of? t = some a → Indexed (Z.tells s items t) (Z.tells s items key) a key σ X →
      Z.tells s items a.itemType σ X
  indexHeld {s : Session} {items : List Local} {t key : Ty} {a : IndexAccess} {held : Local} {σ : Slots} {X : Asm} :
    IndexAccess.of? t = some a → Z.Scratch held → held.type = t.nonNull →
      Guarded (Z.tells s items t) (Indexed (Read held) (Z.tells s items key) a key) t a.itemType held σ X →
        Z.tells s items a.itemType.boxed.orNull σ X
  length {s : Session} {items : List Local} {t : Ty} {σ : Slots} {X : Asm} :
    Followed (Z.tells s items t) (· = [.op (.native .length)]) σ X → Z.tells s items .int32 σ X
  lengthHeld {s : Session} {items : List Local} {t : Ty} {held : Local} {σ : Slots} {X : Asm} :
    Z.Scratch held → held.type = t.nonNull →
      Guarded (Z.tells s items t) (Followed (Read held) (· = [.op (.native .length)])) t .int32 held σ X →
        Z.tells s items Ty.int32.boxed.orNull σ X
  boxedCast {s : Session} {items : List Local} {p : Prim} {source : Ty} {σ : Slots} {X : Asm} :
    BoxedCast (Z.tells s items source) p source σ X → Z.tells s items (.boxedOf p) σ X
  cast {s : Session} {items : List Local} {type source : Ty} {σ : Slots} {X : Asm} :
    Z.castable type source → Converted (Z.tells s items source) type source σ X → Z.tells s items type σ X
  list {s : Session} {items : List Local} {xs : List Expr} {σ : Slots} {B : Asm} :
    Each (fun x => Added (Z.tells s items x.type) (Ty.unifyOrAny (xs.map (·.type))) x.type σ) xs B →
      Z.tells s items (Ty.list (Ty.unifyOrAny (xs.map (·.type)))).nonNull σ ([.op (.native .newList)] ++ B)
  map {s : Session} {items : List Local} {xs : List (Expr × Expr)} {σ : Slots} {B : Asm} :
    Each (fun x => Paired (Z.tells s items x.1.type) (Z.tells s items x.2.type)
      (Ty.unifyOrAny (xs.map (·.1.type))) (Ty.unifyOrAny (xs.map (·.2.type))) x.1.type x.2.type σ) xs B →
      Z.tells s items (Ty.mapOf (Ty.unifyOrAny (xs.map (·.1.type))) (Ty.unifyOrAny (xs.map (·.2.type)))).nonNull σ
        ([.op (.native .newMap)] ++ B)
  closed {s : Session} {items : List Local} {fields : List (String × Expr)} {object : Local} {cls : String} {σ : Slots}
      {X : Asm} :
    (RecordDraft.layout fields, Ty.struct false cls (RecordDraft.layout fields)) ∈ s.structs →
      RecordDraft.Closed (fun x => Z.tells s items x.2.type) fields (·.1) (·.2) object cls (RecordDraft.layout fields) σ X →
        Z.tells s items (.struct false cls (RecordDraft.layout fields)) σ X
  free {s : Session} {items : List Local} {fields : List (String × Expr)} {record : Local} {σ : Slots} {X : Asm} :
    RecordDraft.Open (fun x => Z.tells s items x.2.type) fields (·.1) (·.2) record σ X →
      Z.tells s items Ty.record.nonNull σ X
  transformed {s : Session} {items : List Local} {l : Loop} {a : IterateAccess} {mapped : Ty} {held out : Local}
      {site : Nat} {σ : Slots} {X : Asm} :
    IterateAccess.of? l.iterable.type = some a → l.item.type = a.itemType →
      Loop.Transformed (Z.tells s items l.iterable.type) (Z.tells s (l.item :: items) mapped) a l mapped held out site σ X →
        Z.tells s items (Ty.list mapped.nonNull).nonNull σ X

end Account

end QueryMachine
