import Cpu6502.Proofs.DeclarationReadBack
import Cpu6502.Proofs.DenseRows
import Mathlib.Data.List.Nodup

namespace Cpu6502.Declarations

variable {ids : Identifiers}

theorem enumerators_fst (mnemonics : Mnemonics) (ids : Identifiers) :
    (enumerators mnemonics ids).map Prod.fst =
      mnemonics.names.map fun name => (ids.mnemonicEnumerator name).toList := by
  have hfst := congrArg (List.map fun name => (ids.mnemonicEnumerator name).toList)
    (List.zipIdx_map_fst 0 mnemonics.names)
  rw [List.map_map] at hfst
  rw [enumerators, List.map_map]
  exact hfst

theorem enumerators_snd (mnemonics : Mnemonics) (ids : Identifiers) :
    (enumerators mnemonics ids).map Prod.snd = List.range mnemonics.names.length := by
  rw [enumerators, List.map_map, List.range_eq_range', ← List.zipIdx_map_snd]
  rfl

theorem enumerators_getElem? (ids : Identifiers) {mnemonics : Mnemonics} {i : Nat} {name : String}
    (h : mnemonics.names[i]? = some name) :
    (enumerators mnemonics ids)[i]? = some ((ids.mnemonicEnumerator name).toList, i) := by
  simp [enumerators, Mnemonics.items, h]

/-- Mnemonics are told apart, upper case from lower case as well, and so are their enumerators. -/
theorem nodup_enumerators (mnemonics : Mnemonics) (ids : Identifiers) :
    ((enumerators mnemonics ids).map Prod.fst).Nodup := by
  rw [enumerators_fst]
  apply List.Nodup.map fun _ _ h => mnemonicEnumerator_inj.mp h
  exact mnemonics.sorted.imp fun hlt => String.ne_of_lt hlt

theorem nodup_modeLines (ids : Identifiers) : (modeLines ids).Nodup := by
  have hall : Mode.all.Nodup := by decide
  exact hall.map fun _ _ h => modeEnumerator_inj.mp h

theorem length_mnemonic {text : String} (h : Line.MnemonicText text.toList) :
    1 ≤ text.length ∧ text.length ≤ 3 := by
  obtain ⟨c, rest, htext, _, _, hrest⟩ := h
  rw [← String.length_toList, htext, List.length_cons]
  omega

/-- How the blocks of the declarations of a table fit together. -/
structure Symbols.Consistent (s : Symbols) (ids : Identifiers) (table : DenseTable) : Prop where
  distinct : (s.enumerators.map Prod.fst).Nodup
  numbered : s.enumerators.map Prod.snd = List.range s.names.length
  named : ∀ (i : Nat) (name : String), s.names[i]? = some name →
    s.enumerators[i]? = some ((ids.mnemonicEnumerator name).toList, i)
  fits : ∀ name ∈ s.names, 1 ≤ name.length ∧ name.length ≤ 3
  refers : ∀ byte : UInt8, ∃ e, s.references[byte.toNat]? = some e ∧ e.opcode = byte.toNat ∧
    (s.enumerators.map Prod.fst).count e.enumerator = 1 ∧
    (e.enumerator, (table.row byte).mnemonicIndex) ∈ s.enumerators ∧
    s.names[(table.row byte).mnemonicIndex]? = some (table.row byte).record.mnemonic ∧
    s.modes.count e.mode = 1

/-- With the usual names, enumerators of mnemonics are too short for those of modes. -/
theorem enumerator_ne_mode {name : String} (h : name.length ≤ 3) (mode : Mode) :
    ({} : Identifiers).mnemonicEnumerator name ≠ ({} : Identifiers).modeEnumerator mode := by
  intro he
  have hlength := congrArg String.length he
  have hsuffix : "_Pretty".length = 7 := rfl
  have hmode : ("AddressingMode" ++ "_").length = 15 := rfl
  simp only [Identifiers.mnemonicEnumerator, Identifiers.modeEnumerator, String.length_append,
    hsuffix] at hlength hmode
  omega

/-- What one block of the declarations says of a symbol, the others say as well. -/
theorem blocks_consistent (table : DenseTable) (ids : Identifiers) (ht : table.Compiled)
    (hids : ids.Plain) :
    ∃ s, readSymbols (all table ids).toList = some s ∧ s.Consistent ids table ∧
      (ids = {} → ∀ item ∈ s.enumerators, item.1 ∉ s.modes) := by
  have hfits : ∀ name ∈ table.mnemonics.names, 1 ≤ name.length ∧ name.length ≤ 3 :=
    fun name hname => length_mnemonic (ht.mnemonic_text name hname)
  refine ⟨_, readSymbols_all ht hids, ⟨nodup_enumerators _ ids, enumerators_snd _ ids,
    fun i name => enumerators_getElem? ids, hfits, ?_⟩, ?_⟩
  · intro byte
    have hrow := ht.parsed.row_sound byte
    have hname := Mnemonics.getElem?_of_indexOf? hrow.index_eq
    have hdeclared := List.mem_of_getElem? (enumerators_getElem? ids hname)
    refine ⟨referenceOf ids (table.row byte), ?_, ?_, ?_, hdeclared, hname, ?_⟩
    · simp only [symbols, List.getElem?_map, DenseTable.rows_getElem?, Option.map_some]
    · simp [referenceOf, hrow.opcode_eq]
    · exact List.count_eq_one_of_mem (nodup_enumerators _ ids)
        (List.mem_map_of_mem (f := Prod.fst) hdeclared)
    · exact List.count_eq_one_of_mem (nodup_modeLines ids)
        (List.mem_map_of_mem (Mode.mem_all _))
  · rintro rfl item hitem hmode
    obtain ⟨⟨name, i⟩, hname, rfl⟩ := List.mem_map.mp hitem
    obtain ⟨mode, _, hmode⟩ := List.mem_map.mp hmode
    have hshort := (hfits name (List.fst_mem_of_mem_zipIdx hname)).2
    exact enumerator_ne_mode hshort mode (String.toList_inj.mp hmode).symm

/-- Two mnemonics that differ in the case of their letters alone. -/
theorem blocks_consistent_cases :
    let upper : Record :=
      { opcode := 0x69, mnemonic := "ADC", mode := .immediate, length := 2
        location := some { filename := "table.txt", line := 1 } }
    let lower : Record :=
      { opcode := 0x65, mnemonic := "adc", mode := .zeroPage, length := 2
        location := some { filename := "table.txt", line := 2 } }
    ∃ table s, (DenseTable.build .refuse [upper, lower]).result = .ok table ∧
      readSymbols (all table {}).toList = some s ∧ s.names = ["ADC", "UNK", "adc"] ∧
      s.Consistent {} table ∧ ∀ item ∈ s.enumerators, item.1 ∉ s.modes := by
  intro upper lower
  obtain ⟨table, htable⟩ : ∃ table, (DenseTable.build .refuse [upper, lower]).result = .ok table :=
    DenseTable.build_ok_iff.mpr fun _ => by decide
  have hread : (Table.ofText "table.txt" "Immediate|ADC|69|2\nZero Page|adc|65|2".toList).result =
      .ok [upper, lower] := rfl
  have hcompiled : table.Compiled := ⟨_, _, Table.ofText_parsed hread, htable⟩
  have hmnemonics : table.mnemonics = .ofRecords [upper, lower] :=
    (DenseTable.buildWith_ok htable).1
  obtain ⟨s, hs, hconsistent, hapart⟩ :=
    blocks_consistent table {} hcompiled Identifiers.plain_default
  have hnames : s.names = table.mnemonics.names := by
    rw [readSymbols_all hcompiled Identifiers.plain_default] at hs
    rw [← Option.some.inj hs]
    rfl
  rw [hmnemonics] at hnames
  exact ⟨table, s, htable, hs, hnames.trans (by decide +kernel), hconsistent, hapart rfl⟩

end Cpu6502.Declarations
