import Cpu6502.Proofs.FirstInstruction
import Cpu6502.Proofs.LineGrammar
import Cpu6502.Table.Reader
import Mathlib.Data.List.Forall2

namespace Cpu6502

theorem except_isOk_iff {ε α : Type} {result : Except ε α} :
    result.isOk = true ↔ ∃ a, result = .ok a := by
  cases result <;> simp [Except.isOk, Except.toBool]

theorem Logged.bind_ok {α β : Type} {first : Logged α} {next : α → Logged β} {b : β} :
    (first >>= next).result = .ok b ↔
      ∃ a, first.result = .ok a ∧ (next a).result = .ok b := by
  change (Logged.bind first next).result = .ok b ↔ _
  unfold Logged.bind
  cases first.result <;> simp

theorem Logged.bind_error {α β : Type} {first : Logged α} {next : α → Logged β} {fault : Fault} :
    (first >>= next).result = .error fault ↔
      first.result = .error fault ∨ ∃ a, first.result = .ok a ∧ (next a).result = .error fault := by
  change (Logged.bind first next).result = .error fault ↔ _
  unfold Logged.bind
  cases first.result <;> simp

theorem mapM_ok_iff {ε α β : Type} {f : α → Except ε β} {xs : List α} {ys : List β} :
    xs.mapM f = .ok ys ↔ List.Forall₂ (fun x y => f x = .ok y) xs ys := by
  induction xs generalizing ys with
  | nil => cases ys <;> simp [pure, Except.pure]
  | cons x xs ih =>
    simp only [List.mapM_cons, except_bind_ok, ih]
    cases ys with
    | nil => simp [pure, Except.pure]
    | cons y ys => simp [pure, Except.pure]

theorem exists_mapM_ok {ε α β : Type} {f : α → Except ε β} {xs : List α}
    (h : ∀ x ∈ xs, ∃ y, f x = .ok y) : ∃ ys, xs.mapM f = .ok ys := by
  induction xs with
  | nil => exact ⟨[], rfl⟩
  | cons x xs ih =>
    obtain ⟨y, hy⟩ := h x List.mem_cons_self
    obtain ⟨ys, hys⟩ := ih fun x hx => h x (List.mem_cons_of_mem _ hx)
    exact ⟨y :: ys, mapM_ok_iff.mpr (.cons hy (mapM_ok_iff.mp hys))⟩

/-- A record that some line is read as. -/
def Record.Parsed (r : Record) : Prop :=
  ∃ filename number line, ofLine filename number line = .ok r

/-- A record with a name that lines can spell, and the length of its mode. -/
structure Record.Regular (r : Record) : Prop where
  mnemonic_text : Line.MnemonicText r.mnemonic.toList
  length_eq : r.length = r.mode.length

theorem Record.Parsed.regular {r : Record} (h : r.Parsed) : r.Regular := by
  obtain ⟨filename, number, line, hread⟩ := h
  obtain ⟨mode, mnemonic, opcode, hline, rfl⟩ := ofLine_declares hread
  refine ⟨?_, rfl⟩
  simpa [Line.declared] using hline.mnemonicText

theorem Record.regular_unknown (opcode : Int) : (unknown opcode).Regular :=
  ⟨Line.isMnemonic_iff.mp (show Line.isMnemonic unknownMnemonic.toList = true by decide), rfl⟩

namespace Table

theorem readLines_parsed {filename : String} {number : Nat} {lines : List (List Char)}
    {records : List Record} (h : readLines filename number lines = .ok records) :
    ∀ r ∈ records, r.Parsed := by
  induction lines generalizing number records with
  | nil =>
    cases h
    simp
  | cons line rest ih =>
    unfold readLines at h
    split at h
    · split at h
      · cases h
      · rename_i record hrecord
        split at h
        · cases h
        · rename_i others hothers
          cases h
          intro r hr
          rcases List.mem_cons.mp hr with rfl | hr
          · exact ⟨filename, number, line, hrecord⟩
          · exact ih hothers r hr
    · exact ih h

/-- Everything that some lines are read as was read from one of them. -/
theorem ofLines_parsed {filename : String} {lines : List (List Char)} {records : List Record}
    (h : (ofLines filename lines).result = .ok records) : ∀ r ∈ records, r.Parsed := by
  simp only [ofLines, Logged.bind_ok] at h
  obtain ⟨found, hfound, _, _, hsame⟩ := h
  cases hsame
  cases hread : readLines filename 1 lines with
  | error e =>
    rw [hread] at hfound
    cases hfound
  | ok records =>
    rw [hread] at hfound
    cases hfound
    exact readLines_parsed hread

theorem ofText_parsed {filename : String} {text : List Char} {records : List Record}
    (h : (ofText filename text).result = .ok records) : ∀ r ∈ records, r.Parsed :=
  ofLines_parsed h

end Table

namespace OpcodeIndex

theorem mem_put {record r : Record} {index : List Record} (h : r ∈ put record index) :
    r = record ∨ r ∈ index := by
  induction index with
  | nil => exact .inl (by simpa [put] using h)
  | cons head rest ih =>
    unfold put at h
    split at h
    · rcases List.mem_cons.mp h with h | h
      · exact .inl h
      · exact .inr (List.mem_cons_of_mem _ h)
    · rcases List.mem_cons.mp h with h | h
      · exact .inr (h ▸ List.mem_cons_self)
      · exact (ih h).imp_right (List.mem_cons_of_mem _)

theorem add_ok {policy : RepeatPolicy} {index found : List Record} {record : Record}
    (h : (add policy index record).result = .ok found) : found = put record index := by
  unfold add at h
  split at h
  · cases h
    rfl
  · split at h
    · cases h
    · obtain ⟨_, _, h⟩ := Logged.bind_ok.mp h
      cases h
      rfl

theorem mem_addAll {policy : RepeatPolicy} {index records found : List Record}
    (h : (addAll policy index records).result = .ok found) :
    ∀ r ∈ found, r ∈ index ∨ r ∈ records := by
  induction records generalizing index with
  | nil =>
    cases h
    exact fun r hr => .inl hr
  | cons record rest ih =>
    obtain ⟨next, hnext, h⟩ := Logged.bind_ok.mp h
    cases add_ok hnext
    intro r hr
    rcases ih h r hr with hr | hr
    · rcases mem_put hr with rfl | hr
      · exact .inr List.mem_cons_self
      · exact .inl hr
    · exact .inr (List.mem_cons_of_mem _ hr)

theorem mem_ofRecords {policy : RepeatPolicy} {records found : List Record}
    (h : (ofRecords policy records).result = .ok found) : ∀ r ∈ found, r ∈ records := by
  intro r hr
  simpa using mem_addAll h r hr

theorem find?_eq {index : List Record} {opcode : Int} {r : Record}
    (h : find? index opcode = some r) : r ∈ index ∧ r.opcode = opcode := by
  have hopcode := List.find?_some h
  exact ⟨List.mem_of_find?_eq_some h, beq_iff_eq.mp hopcode⟩

end OpcodeIndex

/-- What the row of an opcode holds in a table of parsed records. -/
structure Row.Sound (mnemonics : Mnemonics) (opcode : Nat) (row : Row) : Prop where
  opcode_eq : row.record.opcode = opcode
  regular : row.record.Regular
  index_eq : mnemonics.indexOf? row.record.mnemonic = some row.mnemonicIndex

namespace DenseTable

/-- Tables of parsed records, whatever numbers the mnemonics have. -/
def Parsed (table : DenseTable) : Prop :=
  ∃ mnemonics policy records, (∀ r ∈ records, r.Parsed) ∧
    (buildWith mnemonics policy records).result = .ok table

theorem rowOf_sound {mnemonics : Mnemonics} {index : List Record} {opcode : Nat} {row : Row}
    (hindex : ∀ r ∈ index, r.Parsed) (h : rowOf mnemonics index opcode = .ok row) :
    Row.Sound mnemonics opcode row := by
  have hrecord : ((OpcodeIndex.find? index opcode).getD (.unknown opcode)).opcode = opcode ∧
      ((OpcodeIndex.find? index opcode).getD (.unknown opcode)).Regular := by
    cases hfound : OpcodeIndex.find? index opcode with
    | none => exact ⟨rfl, Record.regular_unknown opcode⟩
    | some r =>
      obtain ⟨hmem, hopcode⟩ := OpcodeIndex.find?_eq hfound
      exact ⟨hopcode, (hindex r hmem).regular⟩
  simp only [rowOf] at h
  split at h
  · rename_i i hi
    cases h
    exact ⟨hrecord.1, hrecord.2, hi⟩
  · cases h

/-- A table is built of the rows of its opcodes, each in its place. -/
theorem buildWith_ok {mnemonics : Mnemonics} {policy : RepeatPolicy} {records : List Record}
    {table : DenseTable} (h : (buildWith mnemonics policy records).result = .ok table) :
    table.mnemonics = mnemonics ∧ ∃ index,
      (OpcodeIndex.ofRecords policy records).result = .ok index ∧
      List.Forall₂ (fun opcode row => rowOf mnemonics index opcode = .ok row) (List.range 256)
        table.rows.toList := by
  simp only [buildWith, Logged.bind_ok] at h
  obtain ⟨index, hindex, rows, hrows, built, hbuilt, _, _, hsame⟩ := h
  cases hsame
  simp only [Logged.ofExcept, ofRows] at hbuilt
  split at hbuilt
  · cases hbuilt
    exact ⟨rfl, index, hindex, mapM_ok_iff.mp hrows⟩
  · cases hbuilt

theorem Parsed.row_sound {table : DenseTable} (h : table.Parsed) (byte : UInt8) :
    Row.Sound table.mnemonics byte.toNat (table.row byte) := by
  obtain ⟨mnemonics, policy, records, hrecords, hbuild⟩ := h
  obtain ⟨rfl, index, hindex, hrows⟩ := buildWith_ok hbuild
  have hlt := byte.toNat_lt
  have hrow := hrows.get (i := byte.toNat) (by simpa using hlt) (by simpa using hlt)
  refine rowOf_sound (fun r hr => hrecords r (OpcodeIndex.mem_ofRecords hindex r hr)) ?_
  simpa [row] using hrow

/-- The table of a text that is read, if no policy keeps it from being built. -/
theorem exists_parsed (policy : RepeatPolicy) {filename : String} {text : List Char}
    {records : List Record} (hread : (Table.ofText filename text).result = .ok records)
    (hbuild : (build policy records).result.isOk = true) :
    ∃ table, (build policy records).result = .ok table ∧ table.Parsed := by
  obtain ⟨table, htable⟩ := except_isOk_iff.mp hbuild
  exact ⟨table, htable, _, _, _, Table.ofText_parsed hread, htable⟩

/-- What is computed with the table of some records is computed with the one that was built. -/
theorem exists_of_build {policy : RepeatPolicy} {records : List Record} {table : DenseTable}
    (htable : (build policy records).result = .ok table) {α β : Type}
    {f : DenseTable → Except Fault α} {g : α → β} {b : β}
    (h : ((build policy records).result.bind fun table => (f table).map g) = .ok b) :
    ∃ a, f table = .ok a ∧ g a = b := by
  rw [htable, Except.bind] at h
  cases ha : f table with
  | error fault =>
    rw [ha] at h
    cases h
  | ok a =>
    rw [ha] at h
    exact ⟨a, rfl, Except.ok.inj h⟩

theorem Parsed.adequate {table : DenseTable} (h : table.Parsed) : table.Adequate := by
  intro opcode
  exact (h.row_sound opcode).regular.length_eq.ge

/-- Tables of parsed records, with indices in their own mnemonics. -/
def Compiled (table : DenseTable) : Prop :=
  ∃ policy records, (∀ r ∈ records, r.Parsed) ∧ (build policy records).result = .ok table

theorem Compiled.parsed {table : DenseTable} (h : table.Compiled) : table.Parsed := by
  obtain ⟨policy, records, hrecords, hbuild⟩ := h
  exact ⟨_, policy, records, hrecords, hbuild⟩

theorem Compiled.mnemonic_text {table : DenseTable} (h : table.Compiled) :
    ∀ name ∈ table.mnemonics.names, Line.MnemonicText name.toList := by
  obtain ⟨policy, records, hrecords, hbuild⟩ := h
  rw [(buildWith_ok hbuild).1]
  intro name hname
  rcases Mnemonics.mem_sortNames.mp hname with hname | rfl
  · obtain ⟨r, hr, rfl⟩ := List.mem_map.mp hname
    exact (hrecords r hr).regular.mnemonic_text
  · exact (Record.regular_unknown 0).mnemonic_text

theorem rows_getElem? (table : DenseTable) (byte : UInt8) :
    table.rows.toList[byte.toNat]? = some (table.row byte) := by
  have := byte.toNat_lt
  simp [row, this]

theorem exists_byte {v : Nat} (h : v < 256) : ∃ byte : UInt8, byte.toNat = v :=
  ⟨.ofNat v, UInt8.toNat_ofNat_of_lt h⟩

theorem mem_rows {table : DenseTable} {r : Row} (h : r ∈ table.rows.toList) :
    ∃ byte, r = table.row byte := by
  obtain ⟨i, hi, rfl⟩ := List.getElem_of_mem h
  obtain ⟨byte, rfl⟩ := exists_byte (show i < 256 by simpa using hi)
  exact ⟨byte, rfl⟩

/-- Tables are compared row by row. -/
theorem map_rows_congr {α : Type} {table table' : DenseTable} {f : Row → α}
    (h : ∀ byte, f (table.row byte) = f (table'.row byte)) :
    table.rows.toList.map f = table'.rows.toList.map f := by
  apply List.ext_getElem
  · simp
  · intro i hi hi'
    obtain ⟨byte, rfl⟩ := exists_byte (show i < 256 by simpa using hi)
    rw [List.getElem_map, List.getElem_map]
    exact h byte

end DenseTable

namespace Sample

/-- Where a record of the samples is read from. -/
def place (line : Int) : Option Location := some { filename := "table.txt", line := line }

def idle (location : Option Location := none) : Record :=
  { opcode := 0xEA, mnemonic := "NOP", mode := .implied, length := 1, location := location }

def load (location : Option Location := none) : Record :=
  { opcode := 0xA9, mnemonic := "LDA", mode := .immediate, length := 2, location := location }

def jump (location : Option Location := none) : Record :=
  { opcode := 0x4C, mnemonic := "JMP", mode := .absolute, length := 3, location := location }

def branch (location : Option Location := none) : Record :=
  { opcode := 0xD0, mnemonic := "BNE", mode := .relative, length := 2, location := location }

/-- The records of a table with one line. -/
def jumpOnly : List Record := [jump (place 1)]

def branchOnly : List Record := [branch (place 1)]

theorem exists_jump :
    ∃ table, (DenseTable.build .refuse jumpOnly).result = .ok table ∧ table.Parsed := by
  have hread : (Table.ofText "table.txt" "Absolute|JMP|4C|3".toList).result = .ok jumpOnly := rfl
  exact DenseTable.exists_parsed .refuse hread (by decide +kernel)

theorem exists_branch :
    ∃ table, (DenseTable.build .refuse branchOnly).result = .ok table ∧ table.Parsed := by
  have hread : (Table.ofText "table.txt" "Relative|BNE|D0|2".toList).result = .ok branchOnly := rfl
  exact DenseTable.exists_parsed .refuse hread (by decide +kernel)

end Sample

end Cpu6502
