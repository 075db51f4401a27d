import Cpu6502.Record
import Cpu6502.Text.Digit

namespace Cpu6502

/-- The mnemonics of a table, each once and numbered in the order of their characters. -/
structure Mnemonics where
  names : List String
  sorted : names.Pairwise (· < ·)
  unknown_mem : unknownMnemonic ∈ names

namespace Mnemonics

/-- Puts a name at its place in a sorted list, unless it is there already. -/
def insertName (name : String) : List String → List String
  | [] => [name]
  | head :: rest =>
    if name < head then name :: head :: rest
    else if name = head then head :: rest
    else head :: insertName name rest

theorem mem_insertName {name other : String} {names : List String} :
    other ∈ insertName name names ↔ other = name ∨ other ∈ names := by
  induction names with
  | nil => simp [insertName]
  | cons head rest ih =>
    unfold insertName
    split
    · simp
    · split
      · next h => simp [h]
      · simp only [List.mem_cons, ih]
        exact or_left_comm

theorem pairwise_insertName (name : String) {names : List String}
    (h : names.Pairwise (· < ·)) : (insertName name names).Pairwise (· < ·) := by
  induction names with
  | nil => simp [insertName]
  | cons head rest ih =>
    obtain ⟨headLt, restSorted⟩ := List.pairwise_cons.mp h
    unfold insertName
    split
    · next below =>
      refine List.pairwise_cons.mpr ⟨fun other mem => ?_, h⟩
      rcases List.mem_cons.mp mem with rfl | mem
      · exact below
      · exact String.lt_trans below (headLt other mem)
    · next notBelow =>
      split
      · exact h
      · next different =>
        refine List.pairwise_cons.mpr ⟨fun other mem => ?_, ih restSorted⟩
        rcases mem_insertName.mp mem with rfl | mem
        · exact String.not_le.mp fun le =>
            different (String.le_antisymm le (String.not_lt.mp notBelow))
        · exact headLt other mem

def sortNames (names : List String) : List String :=
  names.foldr insertName [unknownMnemonic]

theorem pairwise_sortNames (names : List String) : (sortNames names).Pairwise (· < ·) := by
  induction names with
  | nil => simp [sortNames]
  | cons name rest ih => exact pairwise_insertName name ih

theorem mem_sortNames {name : String} {names : List String} :
    name ∈ sortNames names ↔ name ∈ names ∨ name = unknownMnemonic := by
  induction names with
  | nil => simp [sortNames]
  | cons head rest ih =>
    have step : name ∈ sortNames (head :: rest) ↔ name = head ∨ name ∈ sortNames rest :=
      mem_insertName
    rw [step, ih, List.mem_cons, or_assoc]

def ofNames (names : List String) : Mnemonics where
  names := sortNames names
  sorted := pairwise_sortNames names
  unknown_mem := mem_sortNames.mpr (.inr rfl)

def ofRecords (records : List Record) : Mnemonics := ofNames (records.map Record.mnemonic)

theorem mem_ofRecords {records : List Record} {name : String} :
    name ∈ (ofRecords records).names ↔
      (∃ r ∈ records, r.mnemonic = name) ∨ name = unknownMnemonic := by
  rw [ofRecords, ofNames, mem_sortNames, List.mem_map]

def size (r : Mnemonics) : Nat := r.names.length

def contains (r : Mnemonics) (name : String) : Bool := r.names.contains name

def indexOf? (r : Mnemonics) (name : String) : Option Nat := r.names.idxOf? name

theorem exists_indexOf? {r : Mnemonics} {name : String} (h : name ∈ r.names) :
    ∃ i, r.indexOf? name = some i := by
  cases hi : r.indexOf? name with
  | none => exact absurd h (List.idxOf?_eq_none_iff.mp hi)
  | some i => exact ⟨i, rfl⟩

/-- The index of a name is the place where it stands. -/
theorem getElem?_of_indexOf? {r : Mnemonics} {name : String} {i : Nat}
    (h : r.indexOf? name = some i) : r.names[i]? = some name := by
  obtain ⟨hi, hname, _⟩ := List.idxOf?_eq_some_iff.mp h
  rw [List.getElem?_eq_getElem hi, hname]

/-- The index of the mnemonic of unknown opcodes. -/
def indexOfUnknown (r : Mnemonics) : Nat := r.names.idxOf unknownMnemonic

/-- Names with their indices, in the order of the indices. -/
def items (r : Mnemonics) : List (String × Nat) := r.names.zipIdx

def describe (r : Mnemonics) : String :=
  "MnemonicRegistry(" ++ Text.decimal r.size ++ " mnemonics)"

end Mnemonics

end Cpu6502
