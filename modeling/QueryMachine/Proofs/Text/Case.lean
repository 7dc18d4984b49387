import QueryMachine.Record
import QueryMachine.Text.Uppercase

/-! Case of ASCII text. Upper case by all letters and by ASCII letters tell the same texts apart. -/
namespace QueryMachine.Text

def Ascii (s : String) : Prop := ∀ c ∈ s.toList, c.toNat < 0x80

instance (s : String) : Decidable (Ascii s) :=
  @List.decidableBAll Char (fun c => c.toNat < 0x80) (fun _ => inferInstance) s.toList

theorem upperAscii {cs : List Char} (ascii : ∀ c ∈ cs, c.toNat < 0x80) :
    cs.flatMap Uppercase.char = cs.map Char.toUpper := by
  induction cs with
  | nil => rfl
  | cons c cs ih =>
    rw [List.forall_mem_cons] at ascii
    rw [List.flatMap_cons, List.map_cons, ih ascii.2, Uppercase.char]
    simp only [ascii.1, if_true]
    rfl

theorem asciiCases {c : Char} (ascii : c.toNat < 0x80) :
    c.toUpper.toLower = c.toLower ∧ c.toLower.toUpper = c.toUpper := by
  have all : ∀ n : Fin 0x80, (Char.ofNat n).toUpper.toLower = (Char.ofNat n).toLower ∧
      (Char.ofNat n).toLower.toUpper = (Char.ofNat n).toUpper := by decide
  have here := all ⟨c.toNat, ascii⟩
  rwa [Char.ofNat_toNat] at here

theorem casesAgree {cs ds : List Char} (first : ∀ c ∈ cs, c.toNat < 0x80) (second : ∀ c ∈ ds, c.toNat < 0x80) :
    cs.map Char.toUpper = ds.map Char.toUpper ↔ cs.map Char.toLower = ds.map Char.toLower := by
  have lowered : ∀ xs : List Char, (∀ c ∈ xs, c.toNat < 0x80) → (xs.map Char.toUpper).map Char.toLower = xs.map Char.toLower := by
    intro xs ascii
    rw [List.map_map]
    exact List.map_congr_left fun c inside => (asciiCases (ascii c inside)).1
  have raised : ∀ xs : List Char, (∀ c ∈ xs, c.toNat < 0x80) → (xs.map Char.toLower).map Char.toUpper = xs.map Char.toUpper := by
    intro xs ascii
    rw [List.map_map]
    exact List.map_congr_left fun c inside => (asciiCases (ascii c inside)).2
  constructor
  · intro same
    rw [← lowered cs first, ← lowered ds second, same]
  · intro same
    rw [← raised cs first, ← raised ds second, same]

theorem lowerIs (s : String) : s.toLower = s.map Char.toLower := rfl

theorem lowerSame (s t : String) : (s.toLower == t.toLower) = (s.toList.map Char.toLower == t.toList.map Char.toLower) := by
  rw [Bool.eq_iff_iff, beq_iff_eq, beq_iff_eq, ← String.toList_inj, lowerIs, lowerIs, String.toList_map, String.toList_map]

theorem upperIff {s t : String} (first : Ascii s) (second : Ascii t) :
    Uppercase.text s = Uppercase.text t ↔ Record.fold s = Record.fold t := by
  unfold Uppercase.text Record.fold
  rw [lowerIs, lowerIs, String.ofList_inj, upperAscii first, upperAscii second, casesAgree first second,
    ← String.toList_inj, String.toList_map,
    String.toList_map]

end QueryMachine.Text
