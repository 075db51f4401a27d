import Cpu6502.Mnemonics
import Mathlib.Data.List.Sort
import Mathlib.Data.String.Basic

namespace Cpu6502

/-- A text as the numbers of its characters. -/
def codePoints (text : String) : List Nat := text.toList.map Char.toNat

theorem lt_iff_codePoints {a b : String} : a < b ↔ codePoints a < codePoints b := by
  rw [String.lt_iff_toList_lt, codePoints, codePoints]
  generalize a.toList = cs
  generalize b.toList = ds
  induction cs generalizing ds with
  | nil => cases ds <;> simp
  | cons c cs ih =>
    cases ds with
    | nil => simp
    | cons d ds =>
      simp only [List.map_cons, List.cons_lt_cons_iff, ih, Char.toNat_inj]
      rfl

namespace Mnemonics

/-- Mnemonics are in the order of their characters, so only which they are makes a difference. -/
theorem eq_of_mem_iff {mnemonics mnemonics' : Mnemonics}
    (h : ∀ name, name ∈ mnemonics.names ↔ name ∈ mnemonics'.names) : mnemonics = mnemonics' := by
  obtain ⟨names, sorted, _⟩ := mnemonics
  obtain ⟨names', sorted', _⟩ := mnemonics'
  obtain rfl : names = names' := sorted.eq_of_mem_iff sorted' h
  rfl

theorem indexOf?_eq_none_iff {r : Mnemonics} {name : String} :
    r.indexOf? name = none ↔ name ∉ r.names := List.idxOf?_eq_none_iff

/-- The places of two names are in the order of the names. -/
theorem lt_iff_names_lt {r : Mnemonics} {i j : Nat} {a b : String} (ha : r.names[i]? = some a)
    (hb : r.names[j]? = some b) : i < j ↔ a < b := by
  obtain ⟨hi, rfl⟩ := List.getElem?_eq_some_iff.mp ha
  obtain ⟨hj, rfl⟩ := List.getElem?_eq_some_iff.mp hb
  have hsorted := List.pairwise_iff_getElem.mp r.sorted
  constructor
  · exact hsorted i j hi hj
  · intro hlt
    by_contra hge
    rcases Nat.lt_or_eq_of_le (Nat.not_lt.mp hge) with hji | rfl
    · exact String.lt_asymm hlt (hsorted j i hj hi hji)
    · exact String.lt_irrefl _ hlt

/-- A name has no other index than its place. -/
theorem indexOf?_eq_some_iff {r : Mnemonics} {name : String} {i : Nat} :
    r.indexOf? name = some i ↔ r.names[i]? = some name := by
  constructor
  · exact getElem?_of_indexOf?
  · intro hplace
    obtain ⟨j, hj⟩ := exists_indexOf? (List.mem_of_getElem? hplace)
    have hplace' := getElem?_of_indexOf? hj
    have hle := (lt_iff_names_lt hplace hplace').not.mpr (String.lt_irrefl name)
    have hge := (lt_iff_names_lt hplace' hplace).not.mpr (String.lt_irrefl name)
    rw [hj, show j = i by omega]

/-- How the mnemonics made of some given names are numbered. -/
structure Numbered (r : Mnemonics) (given : List String) : Prop where
  increasing : r.names.Pairwise fun a b => codePoints a < codePoints b
  mem_iff : ∀ name, name ∈ r.names ↔ name ∈ given ∨ name = "UNK"
  index_iff : ∀ name i, r.indexOf? name = some i ↔ r.names[i]? = some name
  missing_iff : ∀ name, r.indexOf? name = none ↔ name ∉ given ∧ name ≠ "UNK"
  index_lt_iff : ∀ a b i j, r.indexOf? a = some i → r.indexOf? b = some j →
    (i < j ↔ codePoints a < codePoints b)
  items_eq : ∀ i : Nat, r.items[i]? = r.names[i]?.map fun name => (name, i)

/-- Names are numbered in their order, each once, and neither their order nor their repetition
before makes a difference, nor whether the one of unknown opcodes was among them. -/
theorem ofNames_numbered :
    (∀ given, (ofNames given).Numbered given) ∧
    ∀ given given' : List String, (∀ name, name ≠ "UNK" → (name ∈ given ↔ name ∈ given')) →
      ofNames given = ofNames given' := by
  constructor
  · intro given
    have hmem (name : String) : name ∈ (ofNames given).names ↔ name ∈ given ∨ name = "UNK" :=
      mem_sortNames
    refine ⟨?_, hmem, fun _ _ => indexOf?_eq_some_iff, ?_, ?_, ?_⟩
    · exact (ofNames given).sorted.imp lt_iff_codePoints.mp
    · intro name
      rw [indexOf?_eq_none_iff, hmem, not_or]
    · intro a b i j ha hb
      rw [lt_iff_names_lt (getElem?_of_indexOf? ha) (getElem?_of_indexOf? hb), lt_iff_codePoints]
    · intro i
      simp [items]
  · intro given given' hgiven
    apply eq_of_mem_iff
    intro name
    rw [ofNames, ofNames, mem_sortNames, mem_sortNames]
    by_cases hunknown : name = unknownMnemonic
    · simp [hunknown]
    · rw [hgiven name hunknown]

/-- A name behind that of unknown opcodes and one outside ASCII, given in two ways. -/
theorem ofNames_numbered_accent :
    (ofNames ["b", "é", "UNK", "b"]).names = ["UNK", "b", "é"] ∧
    (ofNames ["b", "é", "UNK", "b"]).indexOf? "b" = some 1 ∧
    (ofNames ["b", "é", "UNK", "b"]).indexOf? "é" = some 2 ∧
    (1 < 2 ↔ codePoints "b" < codePoints "é") ∧
    ofNames ["b", "é", "UNK", "b"] = ofNames ["é", "b"] := by
  have hnames : (ofNames ["b", "é", "UNK", "b"]).names = ["UNK", "b", "é"] := by decide +kernel
  have hnumbered := ofNames_numbered.1 ["b", "é", "UNK", "b"]
  have hb := (hnumbered.index_iff "b" 1).mpr (by rw [hnames]; rfl)
  have haccent := (hnumbered.index_iff "é" 2).mpr (by rw [hnames]; rfl)
  refine ⟨hnames, hb, haccent, hnumbered.index_lt_iff "b" "é" 1 2 hb haccent, ?_⟩
  apply ofNames_numbered.2
  intro name hname
  simp only [List.mem_cons, List.not_mem_nil, or_false]
  tauto

end Mnemonics

end Cpu6502
