import Cpu6502.Proofs.LastRecord
import Mathlib.Data.Finset.Card

namespace Cpu6502

open OpcodeIndex

/-- What the row of an opcode holds in a table of some records. -/
structure Row.Declared (mnemonics : Mnemonics) (records : List Record) (opcode : Nat) (row : Row) :
    Prop where
  record_eq : row.record = (last? records opcode).getD (.unknown opcode)
  authored_eq : row.authored = (last? records opcode).isSome
  index_eq : mnemonics.indexOf? row.record.mnemonic = some row.mnemonicIndex

namespace DenseTable

theorem rowOf_ok_iff {mnemonics : Mnemonics} {policy : RepeatPolicy} {records index : List Record}
    (hindex : (OpcodeIndex.ofRecords policy records).result = .ok index)
    {opcode : Nat} {row : Row} :
    rowOf mnemonics index opcode = .ok row ↔ Row.Declared mnemonics records opcode row := by
  simp only [rowOf, find?_ofRecords hindex]
  constructor
  · intro h
    split at h
    · rename_i i hi
      cases h
      exact ⟨rfl, rfl, hi⟩
    · cases h
  · intro h
    rw [← h.record_eq, ← h.authored_eq, h.index_eq]

theorem buildWith_declared {mnemonics : Mnemonics} {policy : RepeatPolicy} {records : List Record}
    {table : DenseTable} (h : (buildWith mnemonics policy records).result = .ok table) :
    List.Forall₂ (Row.Declared mnemonics records) (List.range 256) table.rows.toList := by
  obtain ⟨_, index, hindex, hrows⟩ := buildWith_ok h
  exact hrows.imp fun _ _ => (rowOf_ok_iff hindex).mp

theorem row_declared {mnemonics : Mnemonics} {policy : RepeatPolicy} {records : List Record}
    {table : DenseTable} (h : (buildWith mnemonics policy records).result = .ok table)
    (byte : UInt8) : Row.Declared mnemonics records byte.toNat (table.row byte) := by
  have hlt := byte.toNat_lt
  have hrow :=
    (buildWith_declared h).get (i := byte.toNat) (by simpa using hlt) (by simpa using hlt)
  simpa [row] using hrow

theorem buildWith_of_rows {mnemonics : Mnemonics} {policy : RepeatPolicy}
    {records index : List Record} {rows : List Row}
    (hindex : (OpcodeIndex.ofRecords policy records).result = .ok index)
    (hrows : (List.range 256).mapM (rowOf mnemonics index) = .ok rows) :
    ∃ table, (buildWith mnemonics policy records).result = .ok table := by
  have hlength : rows.length = 256 := by
    rw [← (mapM_ok_iff.mp hrows).length_eq, List.length_range]
  refine ⟨⟨⟨rows.toArray, hlength⟩, mnemonics⟩, Logged.bind_ok.mpr ⟨index, hindex, ?_⟩⟩
  refine Logged.bind_ok.mpr ⟨rows, hrows, Logged.bind_ok.mpr ⟨_, dif_pos hlength, ?_⟩⟩
  rfl

/-- Where all mnemonics are registered, only a repeated opcode keeps a table from being built. -/
theorem buildWith_of_names {mnemonics : Mnemonics} {policy : RepeatPolicy}
    {records index : List Record} (hnames : ∀ r ∈ records, r.mnemonic ∈ mnemonics.names)
    (hindex : (OpcodeIndex.ofRecords policy records).result = .ok index) :
    ∃ table, (buildWith mnemonics policy records).result = .ok table := by
  have hrow : ∀ opcode ∈ List.range 256, ∃ row, rowOf mnemonics index opcode = .ok row := by
    intro opcode _
    have hname : ((last? records opcode).getD (.unknown opcode)).mnemonic ∈ mnemonics.names := by
      cases hlast : last? records opcode with
      | none => exact mnemonics.unknown_mem
      | some r =>
        obtain ⟨before, after, rfl, _⟩ := last?_eq_some_iff.mp hlast
        exact hnames r (by simp)
    obtain ⟨i, hi⟩ := Mnemonics.exists_indexOf? hname
    exact ⟨⟨_, i, _⟩, (rowOf_ok_iff hindex).mpr ⟨rfl, rfl, hi⟩⟩
  obtain ⟨rows, hrows⟩ := exists_mapM_ok hrow
  exact buildWith_of_rows hindex hrows

/-- Records have their own mnemonics registered. -/
theorem build_ok {policy : RepeatPolicy} {records index : List Record}
    (hindex : (OpcodeIndex.ofRecords policy records).result = .ok index) :
    ∃ table, (build policy records).result = .ok table :=
  buildWith_of_names (fun r hr => Mnemonics.mem_ofRecords.mpr (.inl ⟨r, hr, rfl⟩)) hindex

theorem build_ok_iff {policy : RepeatPolicy} {records : List Record} :
    (∃ table, (build policy records).result = .ok table) ↔
      (policy = .refuse → (records.map Record.opcode).Nodup) := by
  rw [← ofRecords_ok_iff]
  constructor
  · rintro ⟨table, h⟩
    obtain ⟨_, index, hindex, _⟩ := buildWith_ok h
    exact ⟨index, hindex⟩
  · rintro ⟨index, hindex⟩
    exact build_ok hindex

theorem build_error {policy : RepeatPolicy} {records : List Record} {fault : Fault}
    (h : (build policy records).result = .error fault) : Refused fault := by
  rcases Logged.bind_error.mp h with hindex | ⟨index, hindex, _⟩
  · exact addAll_error hindex
  · obtain ⟨table, htable⟩ := build_ok hindex
    rw [h] at htable
    cases htable

/-- The opcode bytes that some record declares. -/
def declaredBytes (records : List Record) : Finset Int :=
  (records.map Record.opcode).toFinset.filter fun opcode => 0 ≤ opcode ∧ opcode < 256

theorem declaredBytes_eq (records : List Record) :
    declaredBytes records =
      (((List.range 256).filter fun v : Nat => (last? records v).isSome).map
        ((↑) : Nat → Int)).toFinset := by
  have hsome (v : Nat) : (last? records v).isSome = true ↔ ∃ r ∈ records, r.opcode = v := by
    rw [Option.isSome_iff_ne_none, ne_eq, last?_eq_none_iff]
    push Not
    rfl
  ext opcode
  simp only [declaredBytes, Finset.mem_filter, List.mem_toFinset, List.mem_map, List.mem_filter,
    List.mem_range, hsome]
  constructor
  · rintro ⟨⟨r, hr, rfl⟩, hpos, hlt⟩
    exact ⟨r.opcode.toNat, ⟨by omega, r, hr, by omega⟩, Int.toNat_of_nonneg hpos⟩
  · rintro ⟨v, ⟨hlt, r, hr, hopcode⟩, rfl⟩
    exact ⟨⟨r, hr, hopcode⟩, Int.natCast_nonneg v, by omega⟩

/-- Every opcode byte is declared or has a row that stands in for it. -/
theorem unknownCount_add_card {mnemonics : Mnemonics} {policy : RepeatPolicy}
    {records : List Record} {table : DenseTable}
    (h : (buildWith mnemonics policy records).result = .ok table) :
    table.unknownCount + (declaredBytes records).card = 256 := by
  have hauthored : table.rows.toList.map Row.authored =
      (List.range 256).map fun v : Nat => (last? records v).isSome := by
    symm
    rw [← List.forall₂_eq_eq_eq, List.forall₂_map_left_iff, List.forall₂_map_right_iff]
    exact (buildWith_declared h).imp fun _ _ hrow => hrow.authored_eq.symm
  have hunknown : table.unknownCount =
      (List.range 256).countP fun v : Nat => !(last? records v).isSome := by
    have := congrArg (List.countP fun authored => !authored) hauthored
    simpa only [unknownCount, List.countP_map, Function.comp_def] using this
  have hcard : (declaredBytes records).card =
      (List.range 256).countP fun v : Nat => (last? records v).isSome := by
    rw [declaredBytes_eq, List.toFinset_card_of_nodup, List.length_map,
      List.countP_eq_length_filter]
    exact (List.nodup_range.filter _).map fun _ _ => Int.ofNat_inj.mp
  have htotal := List.length_eq_countP_add_countP (l := List.range 256)
    fun v : Nat => (last? records v).isSome
  simp only [List.length_range, Bool.not_eq_true, Bool.decide_eq_false] at htotal
  rw [hunknown, hcard, Nat.add_comm, ← htotal]

/-- A table has a row for each byte, with the last record for it where there is one, and the names
of all records, of those as well that no row holds. -/
theorem rows_last_declared {policy : RepeatPolicy} {records : List Record} {table : DenseTable}
    (h : (build policy records).result = .ok table) :
    table.rows.toList.length = 256 ∧
    (∀ v : Nat, v < 256 → ∃ row, table.rowAt v = .ok row ∧
      ((∃ (before : List Record) (r : Record) (after : List Record),
          records = before ++ r :: after ∧ r.opcode = v ∧ (∀ other ∈ after, other.opcode ≠ v) ∧
            row.record = r ∧ row.authored = true) ∨
        (∀ r ∈ records, r.opcode ≠ v) ∧ row.authored = false ∧
          row.record = { opcode := v, mnemonic := "UNK", mode := .implied, length := 1 }) ∧
      table.mnemonics.names[row.mnemonicIndex]? = some row.record.mnemonic) ∧
    (∀ name, name ∈ table.mnemonics.names ↔ (∃ r ∈ records, r.mnemonic = name) ∨ name = "UNK") ∧
    table.unknownCount + (declaredBytes records).card = 256 := by
  have hnames : table.mnemonics = .ofRecords records := (buildWith_ok h).1
  refine ⟨by simp, ?_, ?_, unknownCount_add_card h⟩
  · intro v hv
    obtain ⟨byte, rfl⟩ := exists_byte hv
    have hrow := row_declared h byte
    refine ⟨table.row byte, table.rowAt_toNat byte, ?_, ?_⟩
    · cases hlast : last? records byte.toNat with
      | none =>
        exact .inr ⟨last?_eq_none_iff.mp hlast, by rw [hrow.authored_eq, hlast]; rfl,
          by rw [hrow.record_eq, hlast]; rfl⟩
      | some r =>
        obtain ⟨before, after, hsplit, hopcode, hafter⟩ := last?_eq_some_iff.mp hlast
        exact .inl ⟨before, r, after, hsplit, hopcode, hafter, by rw [hrow.record_eq, hlast]; rfl,
          by rw [hrow.authored_eq, hlast]; rfl⟩
    · rw [hnames]
      exact Mnemonics.getElem?_of_indexOf? hrow.index_eq
  · intro name
    rw [hnames]
    exact Mnemonics.mem_ofRecords

/-- A record for an opcode that is overridden by one of the mnemonic of unknown opcodes, and a
record for no byte at all. -/
theorem rows_last_declared_overridden :
    let first : Record := { Sample.branch with opcode := 0x10, mnemonic := "BPL" }
    let outside : Record := { Sample.idle with opcode := -1, mnemonic := "neg" }
    let second : Record := { first with mnemonic := "UNK", mode := .immediate, length := 7 }
    ∃ table row, (build .lastWins [first, outside, second]).result = .ok table ∧
      table.rowAt 0x10 = .ok row ∧ row.record = second ∧ row.authored = true ∧
      "BPL" ∈ table.mnemonics.names ∧ "neg" ∈ table.mnemonics.names ∧ table.unknownCount = 255 := by
  intro first outside second
  obtain ⟨table, htable⟩ : ∃ table, (build .lastWins [first, outside, second]).result = .ok table :=
    build_ok_iff.mpr (by simp)
  obtain ⟨_, hrows, hnames, hcount⟩ := rows_last_declared htable
  obtain ⟨row, hrow, hdeclared, _⟩ := hrows 0x10 (by omega)
  have hcard : (declaredBytes [first, outside, second]).card = 1 := by decide
  have hbpl := (hnames "BPL").mpr (.inl ⟨first, by simp, rfl⟩)
  have hneg := (hnames "neg").mpr (.inl ⟨outside, by simp, rfl⟩)
  rcases hdeclared with ⟨before, r, after, hsplit, hopcode, hafter, hrecord, hauthored⟩ | ⟨hnone, _⟩
  · have hlast := last?_eq_some_iff.mpr ⟨before, after, hsplit, hopcode, hafter⟩
    have hsecond : last? [first, outside, second] 0x10 = some second := rfl
    obtain rfl : second = r := Option.some.inj (hsecond.symm.trans hlast)
    exact ⟨table, row, htable, hrow, hrecord, hauthored, hbpl, hneg, by omega⟩
  · exact absurd rfl (hnone first (by simp))

end DenseTable

end Cpu6502
