import Cpu6502.Proofs.DenseRows
import Cpu6502.Proofs.RepeatedOpcodes

namespace Cpu6502

section Distinct

variable {α : Type} [BEq α] [LawfulBEq α]

theorem eraseDups_concat (as : List α) (a : α) [Decidable (a ∈ as)] :
    (as ++ [a]).eraseDups = as.eraseDups ++ if a ∈ as then [] else [a] := by
  rw [List.eraseDups_append, List.removeAll]
  split <;> rename_i h <;> simp [h, List.eraseDups_cons]

theorem nodup_eraseDups (as : List α) : as.eraseDups.Nodup := by
  classical
  induction as using List.reverseRecOn with
  | nil => exact List.nodup_nil
  | append_singleton as a ih =>
    rw [eraseDups_concat]
    split
    · rwa [List.append_nil]
    · rename_i hnew
      rw [← List.concat_eq_append]
      exact ih.concat (by rwa [List.mem_eraseDups])

end Distinct

namespace OpcodeIndex

variable {records : List Record} {record : Record} {index : List Record} {log : List LogEntry}

/-- The records that no other record for their opcode follows. -/
def kept : List Record → List Record
  | [] => []
  | record :: rest =>
    if ∃ other ∈ rest, other.opcode = record.opcode then kept rest else record :: kept rest

theorem kept_sublist (records : List Record) : (kept records).Sublist records := by
  induction records with
  | nil => exact .slnil
  | cons record rest ih =>
    rw [kept]
    split
    · exact ih.cons record
    · exact ih.cons_cons record

theorem nodup_kept (records : List Record) : ((kept records).map Record.opcode).Nodup := by
  induction records with
  | nil => exact List.nodup_nil
  | cons record rest ih =>
    rw [kept]
    split
    · exact ih
    · rename_i hlast
      rw [List.map_cons, List.nodup_cons, List.mem_map]
      refine ⟨?_, ih⟩
      rintro ⟨other, hother, hopcode⟩
      exact hlast ⟨other, (kept_sublist rest).subset hother, hopcode⟩

/-- A record that is left out is the last for no opcode. -/
theorem last?_kept (records : List Record) (opcode : Int) :
    last? (kept records) opcode = last? records opcode := by
  induction records with
  | nil => rfl
  | cons record rest ih =>
    rw [kept]
    split
    · rename_i hfollowed
      rw [ih, last?_cons]
      split
      · rename_i hopcode
        obtain ⟨other, hother, hsame⟩ := hfollowed
        have hsome : last? rest opcode ≠ none :=
          fun hnone => last?_eq_none_iff.mp hnone other hother (hsame.trans hopcode)
        obtain ⟨r, hr⟩ := Option.ne_none_iff_exists'.mp hsome
        rw [hr, Option.some_or]
      · rw [Option.or_none]
    · rw [last?_cons, last?_cons, ih]

/-- The record at a position, with the nearest before it that has its opcode. -/
def replacedAt? (records : List Record) (position : Nat) : Option (Record × Record) :=
  records[position]?.bind fun new =>
    (last? (records.take position) new.opcode).map fun old => (new, old)

/-- The records that replace another, each with that one. -/
def replacements (records : List Record) : List (Record × Record) :=
  (List.range records.length).filterMap (replacedAt? records)

def replacementEntry (new old : Record) : LogEntry :=
  { level := .warning, text := replacementText new old }

theorem replacements_concat (records : List Record) (record : Record) :
    replacements (records ++ [record]) =
      replacements records ++
        ((last? records record.opcode).map fun old => (record, old)).toList := by
  have hbefore : ∀ position ∈ List.range records.length,
      replacedAt? (records ++ [record]) position = replacedAt? records position := by
    intro position hposition
    have hlt := List.mem_range.mp hposition
    rw [replacedAt?, replacedAt?, List.getElem?_append_left hlt,
      List.take_append_of_le_length hlt.le]
  have hat : replacedAt? (records ++ [record]) records.length =
      (last? records record.opcode).map fun old => (record, old) := by
    simp [replacedAt?]
  rw [replacements, List.length_append, List.length_singleton, List.range_succ,
    List.filterMap_append, List.filterMap_congr hbefore, List.filterMap_cons, hat, replacements]
  cases last? records record.opcode <;> rfl

/-- A record either has an opcode of its own or replaces another. -/
theorem length_replacements_add_card (records : List Record) :
    (replacements records).length + (records.map Record.opcode).toFinset.card = records.length := by
  induction records using List.reverseRecOn with
  | nil => rfl
  | append_singleton records record ih =>
    have hopcodes : ((records ++ [record]).map Record.opcode).toFinset =
        insert record.opcode (records.map Record.opcode).toFinset := by
      rw [List.map_append, List.toFinset_append, Finset.union_comm]
      rfl
    have hnone : last? records record.opcode = none ↔
        record.opcode ∉ (records.map Record.opcode).toFinset := by
      simp [last?_eq_none_iff]
    rw [replacements_concat, hopcodes, List.length_append, List.length_append,
      List.length_singleton]
    cases hlast : last? records record.opcode with
    | none =>
      rw [Finset.card_insert_of_notMem (hnone.mp hlast), Option.map_none, Option.toList_none,
        List.length_nil]
      omega
    | some old =>
      have hmem : record.opcode ∈ (records.map Record.opcode).toFinset := by
        by_contra hnew
        rw [hnone.mpr hnew] at hlast
        cases hlast
      rw [Finset.insert_eq_of_mem hmem, Option.map_some, Option.toList_some, List.length_singleton]
      omega

/-- A record that is put in where its opcode is leaves the opcodes as they are. -/
theorem map_opcode_put (record : Record) (index : List Record) :
    (put record index).map Record.opcode = index.map Record.opcode ++
      if record.opcode ∈ index.map Record.opcode then [] else [record.opcode] := by
  induction index with
  | nil => rfl
  | cons head rest ih =>
    rw [put]
    split
    · rename_i hsame
      simp [hsame]
    · rename_i hother
      simp [ih, Ne.symm hother]

theorem add_lastWins (index : List Record) (record : Record) :
    add .lastWins index record =
      { result := .ok (put record index)
        log := ((find? index record.opcode).map (replacementEntry record)).toList } := by
  rw [add]
  cases find? index record.opcode <;> rfl

theorem ofRecords_lastWins_concat
    (h : ofRecords .lastWins records = { result := .ok index, log := log }) (record : Record) :
    ofRecords .lastWins (records ++ [record]) =
      { result := .ok (put record index)
        log := log ++ ((last? records record.opcode).map (replacementEntry record)).toList } := by
  have hfind : find? index record.opcode = last? records record.opcode :=
    find?_ofRecords (by rw [h]) record.opcode
  rw [ofRecords_concat, h, ← hfind]
  simp only [bind, Logged.bind, add_lastWins]

/-- Where opcodes may be repeated, each keeps the place at which it came first, and the log has
every record that replaces another. -/
theorem ofRecords_lastWins (records : List Record) :
    ∃ index, ofRecords .lastWins records =
        { result := .ok index
          log := (replacements records).map fun (new, old) => replacementEntry new old } ∧
      index.map Record.opcode = (records.map Record.opcode).eraseDups := by
  induction records using List.reverseRecOn with
  | nil => exact ⟨[], rfl, rfl⟩
  | append_singleton records record ih =>
    obtain ⟨index, hrun, hopcodes⟩ := ih
    refine ⟨put record index, ?_, ?_⟩
    · rw [ofRecords_lastWins_concat hrun, replacements_concat, List.map_append]
      cases last? records record.opcode <;> rfl
    · rw [map_opcode_put, hopcodes, List.map_append, List.map_singleton, eraseDups_concat]
      simp only [List.mem_eraseDups]

end OpcodeIndex

open OpcodeIndex

attribute [ext] Row

namespace DenseTable

variable {policy policy' : RepeatPolicy} {mnemonics mnemonics' : Mnemonics}
  {records others : List Record}
  {table table' : DenseTable}

/-- Records of which the same are last make the same rows, but for the numbers of the mnemonics. -/
theorem row_congr (hlast : ∀ opcode, last? records opcode = last? others opcode)
    (h : (buildWith mnemonics policy records).result = .ok table)
    (h' : (buildWith mnemonics' policy' others).result = .ok table') (byte : UInt8) :
    (table.row byte).record = (table'.row byte).record ∧
      (table.row byte).authored = (table'.row byte).authored := by
  have hrow := row_declared h byte
  have hrow' := row_declared h' byte
  exact ⟨by rw [hrow.record_eq, hrow'.record_eq, hlast],
    by rw [hrow.authored_eq, hrow'.authored_eq, hlast]⟩

theorem rows_congr (hlast : ∀ opcode, last? records opcode = last? others opcode)
    (h : (buildWith mnemonics policy records).result = .ok table)
    (h' : (buildWith mnemonics policy' others).result = .ok table') : table.rows = table'.rows := by
  have hrow (byte : UInt8) : table.row byte = table'.row byte := by
    obtain ⟨hrecord, hauthored⟩ := row_congr hlast h h' byte
    have hindex : (table.row byte).mnemonicIndex = (table'.row byte).mnemonicIndex := by
      apply Option.some.inj
      rw [← (row_declared h byte).index_eq, ← (row_declared h' byte).index_eq, hrecord]
    exact Row.ext hrecord hindex hauthored
  apply Vector.toList_inj.mp
  simpa using map_rows_congr (f := id) hrow

/-- Where opcodes may be repeated, the table is that of the records that none of their opcode
follows, and every other record is logged with the one that replaces it. Its mnemonic keeps its
number. -/
theorem build_lastWins (records : List Record) :
    (∃ index log, ofRecords .lastWins records = { result := .ok index, log := log } ∧
      index.map Record.opcode = (records.map Record.opcode).eraseDups ∧
      (∀ r ∈ index, last? records r.opcode = some r) ∧
      log = (replacements records).map (fun (new, old) => replacementEntry new old) ∧
      log.length + (records.map Record.opcode).toFinset.card = records.length) ∧
    (∀ mnemonics : Mnemonics, (∀ r ∈ records, r.mnemonic ∈ mnemonics.names) →
      ∃ table table', (buildWith mnemonics .lastWins records).result = .ok table ∧
        (buildWith mnemonics .refuse (kept records)).result = .ok table' ∧
        table.rows = table'.rows) ∧
    ∃ table table', (build .lastWins records).result = .ok table ∧
      (build .refuse (kept records)).result = .ok table' ∧
      (∀ byte, (table.row byte).record = (table'.row byte).record ∧
        (table.row byte).authored = (table'.row byte).authored) ∧
      ∀ name ∈ table'.mnemonics.names, name ∈ table.mnemonics.names := by
  obtain ⟨index, hrun, hopcodes⟩ := ofRecords_lastWins records
  have hindex : (ofRecords .lastWins records).result = .ok index := by rw [hrun]
  have hkept : (ofRecords .refuse (kept records)).result = .ok (kept records) := by
    rw [ofRecords_of_nodup .refuse (nodup_kept records)]
    rfl
  have hlast (opcode : Int) : last? records opcode = last? (kept records) opcode :=
    (last?_kept records opcode).symm
  refine ⟨⟨index, _, hrun, hopcodes, ?_, rfl, ?_⟩, ?_, ?_⟩
  · intro r hr
    have hnodup : (index.map Record.opcode).Nodup := by
      rw [hopcodes]
      exact nodup_eraseDups _
    rw [← find?_ofRecords hindex, find?_of_nodup hnodup hr]
  · rw [List.length_map]
    exact length_replacements_add_card records
  · intro mnemonics hnames
    obtain ⟨table, htable⟩ := buildWith_of_names hnames hindex
    obtain ⟨table', htable'⟩ :=
      buildWith_of_names (fun r hr => hnames r ((kept_sublist records).subset hr)) hkept
    exact ⟨table, table', htable, htable', rows_congr hlast htable htable'⟩
  · obtain ⟨table, htable⟩ := build_ok hindex
    obtain ⟨table', htable'⟩ := build_ok hkept
    refine ⟨table, table', htable, htable', row_congr hlast htable htable', ?_⟩
    rw [(buildWith_ok htable).1, (buildWith_ok htable').1]
    intro name hname
    rcases Mnemonics.mem_ofRecords.mp hname with ⟨r, hr, hmnemonic⟩ | hunknown
    · exact Mnemonics.mem_ofRecords.mpr (.inl ⟨r, (kept_sublist records).subset hr, hmnemonic⟩)
    · exact Mnemonics.mem_ofRecords.mpr (.inr hunknown)

/-- A record that replaces another and is replaced itself, with a jump among them. -/
theorem build_lastWins_chain :
    let first : Record := Sample.idle
    let jump : Record := Sample.jump
    let second : Record := { first with mnemonic := "NOX", mode := .immediate, length := 2 }
    let third : Record := { first with mnemonic := "KIL" }
    let records := [first, jump, second, third]
    let mnemonics : Mnemonics := .ofNames ["NOP", "JMP", "NOX", "KIL", "RTS"]
    kept records = [jump, third] ∧
    (ofRecords .lastWins records).result = .ok [third, jump] ∧
    (ofRecords .lastWins records).log =
      [{ level := .warning, text := "Opcode $EA: NOX Immediate replaces NOP Implied" },
        { level := .warning, text := "Opcode $EA: KIL Implied replaces NOX Immediate" }] ∧
    (∃ table table', (buildWith mnemonics .lastWins records).result = .ok table ∧
      (buildWith mnemonics .refuse [jump, third]).result = .ok table' ∧ table.rows = table'.rows) ∧
    ∃ table table', (build .lastWins records).result = .ok table ∧
      (build .refuse [jump, third]).result = .ok table' ∧
      (table.row 0xEA).record = (table'.row 0xEA).record ∧
      "NOX" ∈ table.mnemonics.names ∧ "NOX" ∉ table'.mnemonics.names := by
  intro first jump second third records mnemonics
  have hkept : kept records = [jump, third] := rfl
  obtain ⟨⟨index, log, hrun, _, _, hlog, _⟩, hregistered, hbuilt⟩ := build_lastWins records
  obtain ⟨table, table', htable, htable', hrows, _⟩ := hbuilt
  refine ⟨hkept, rfl, ?_, ?_, table, table', htable, htable', (hrows 0xEA).1, ?_, ?_⟩
  · rw [hrun]
    exact hlog.trans (by decide +kernel)
  · exact hregistered mnemonics (by decide +kernel)
  · rw [(buildWith_ok htable).1]
    decide +kernel
  · rw [(buildWith_ok htable').1]
    decide +kernel

end DenseTable

end Cpu6502
