import Cpu6502.Proofs.TableFaults

namespace Cpu6502

/-- What was done before does not show in a result. -/
theorem Logged.result_bind {α β : Type} {first : Logged α} {next : α → Logged β} {a : α}
    (h : first.result = .ok a) : (first >>= next).result = (next a).result := by
  change (Logged.bind first next).result = _
  rw [Logged.bind, h]

namespace Line

variable {line mnemonic mnemonic' : List Char} {mode mode' : Mode} {opcode opcode' : Nat}

/-- What a line declares is read off it, so it declares one thing only. -/
theorem Declares.opcode_eq (h : Declares line mode mnemonic opcode)
    (h' : Declares line mode' mnemonic' opcode') : opcode = opcode' := by
  have hread : Record.ofLine "" 0 line = .ok (declared "" 0 mode mnemonic opcode) := h.read
  rw [h'.read, Except.ok.injEq] at hread
  simpa [declared] using (congrArg Record.opcode hread).symm

/-- A line declares an opcode byte. -/
def DeclaresOpcode (line : List Char) (opcode : Nat) : Prop :=
  ∃ mode mnemonic, Declares line mode mnemonic opcode

/-- Two lines do not declare the same opcode byte. -/
def Distinct (a b : List Char) : Prop :=
  ∀ opcode, DeclaresOpcode a opcode → ¬ DeclaresOpcode b opcode

/-- A line and the record it is read as. -/
def ReadAs (line : List Char) (record : Record) : Prop :=
  ∃ opcode, DeclaresOpcode line opcode ∧ record.opcode = opcode

theorem ReadAs.distinct_iff {a b : List Char} {r s : Record} (ha : ReadAs a r) (hb : ReadAs b s) :
    Distinct a b ↔ r.opcode ≠ s.opcode := by
  obtain ⟨opcode, ⟨mode, mnemonic, hline⟩, hr⟩ := ha
  obtain ⟨opcode', ⟨mode', mnemonic', hline'⟩, hs⟩ := hb
  rw [hr, hs, Ne, Nat.cast_inj]
  constructor
  · rintro hdistinct rfl
    exact hdistinct opcode ⟨mode, mnemonic, hline⟩ ⟨mode', mnemonic', hline'⟩
  · rintro hne same ⟨_, _, hsame⟩ ⟨_, _, hsame'⟩
    exact hne ((hline.opcode_eq hsame).trans (hsame'.opcode_eq hline'))

end Line

namespace Table

variable {filename : String} {number : Nat} {line : List Char} {rest lines : List (List Char)}
  {records : List Record}

theorem readLines_of_idle (h : declares line = false) :
    readLines filename number (line :: rest) = readLines filename (number + 1) rest := by
  rw [readLines, if_neg (by simp [h])]

theorem readLines_cons_ok_iff (h : declares line = true) :
    readLines filename number (line :: rest) = .ok records ↔
      ∃ record others, Record.ofLine filename number line = .ok record ∧
        readLines filename (number + 1) rest = .ok others ∧ record :: others = records := by
  rw [readLines, if_pos h]
  cases Record.ofLine filename number line with
  | error error => simp
  | ok record =>
    cases readLines filename (number + 1) rest with
    | error error => simp
    | ok others => simp

/-- Every line that declares something is read as a record, in the order of the lines. -/
theorem readLines_readAs (h : readLines filename number lines = .ok records) :
    List.Forall₂ Line.ReadAs (lines.filter declares) records := by
  induction lines generalizing number records with
  | nil =>
    cases h
    exact .nil
  | cons line rest ih =>
    cases hdeclares : declares line with
    | false =>
      rw [readLines_of_idle hdeclares] at h
      rw [List.filter_cons_of_neg (by simp [hdeclares])]
      exact ih h
    | true =>
      obtain ⟨record, others, hrecord, hothers, rfl⟩ := (readLines_cons_ok_iff hdeclares).mp h
      rw [List.filter_cons_of_pos hdeclares]
      obtain ⟨mode, mnemonic, opcode, hline, rfl⟩ := Record.ofLine_declares hrecord
      exact .cons ⟨opcode, ⟨mode, mnemonic, hline⟩, rfl⟩ (ih hothers)

theorem exists_readLines (filename : String) (number : Nat)
    (h : ∀ line ∈ lines.filter declares, ∃ opcode, Line.DeclaresOpcode line opcode) :
    ∃ records, readLines filename number lines = .ok records := by
  induction lines generalizing number with
  | nil => exact ⟨[], rfl⟩
  | cons line rest ih =>
    cases hdeclares : declares line with
    | false =>
      rw [List.filter_cons_of_neg (by simp [hdeclares])] at h
      rw [readLines_of_idle hdeclares]
      exact ih (number + 1) h
    | true =>
      rw [List.filter_cons_of_pos hdeclares, List.forall_mem_cons] at h
      obtain ⟨⟨opcode, mode, mnemonic, hline⟩, hrest⟩ := h
      obtain ⟨others, hothers⟩ := ih (number + 1) hrest
      exact ⟨_, (readLines_cons_ok_iff hdeclares).mpr ⟨_, others, hline.read, hothers, rfl⟩⟩

theorem ofLines_ok_iff :
    (ofLines filename lines).result = .ok records ↔ readLines filename 1 lines = .ok records := by
  simp only [ofLines, Logged.bind_ok]
  cases hread : readLines filename 1 lines with
  | error error => simp [Logged.ofExcept, Except.mapError]
  | ok found => simp [Logged.ofExcept, Except.mapError, Logged.write, pure]

end Table

/-- Lines declare no opcode twice exactly if the records do not that they are read as. -/
theorem nodup_opcodes_iff_distinct {lines : List (List Char)} {records : List Record}
    (h : List.Forall₂ Line.ReadAs lines records) :
    (records.map Record.opcode).Nodup ↔ lines.Pairwise Line.Distinct := by
  induction h with
  | nil => simp
  | @cons line record lines records hline hrest ih =>
    have hhead : (∀ r ∈ records, record.opcode ≠ r.opcode) ↔ ∀ b ∈ lines, Line.Distinct line b := by
      clear ih
      induction hrest with
      | nil => simp
      | cons hfirst _ ihrest =>
        rw [List.forall_mem_cons, List.forall_mem_cons, ihrest, hline.distinct_iff hfirst]
    rw [List.map_cons, List.nodup_cons, List.pairwise_cons, ih, ← hhead]
    simp [eq_comm]

theorem exists_opcode_of_readAs {lines : List (List Char)} {records : List Record}
    (h : List.Forall₂ Line.ReadAs lines records) :
    ∀ line ∈ lines, ∃ opcode, Line.DeclaresOpcode line opcode := by
  induction h with
  | nil => simp
  | cons hline _ ih =>
    obtain ⟨opcode, hopcode, _⟩ := hline
    exact List.forall_mem_cons.mpr ⟨⟨opcode, hopcode⟩, ih⟩

namespace TableSource

/-- The lines of a table, if its bytes are a text. -/
def lines? : TableSource → Option (List (List Char))
  | packaged => some (Table.Packaged.lines.map String.toList)
  | file _ (.ok bytes) =>
    (String.fromUTF8? bytes).map fun text => Text.lines (Table.dropMark text.toList)
  | file _ (.error _) => none

/-- What makes the bytes of a table unfit. -/
inductive Rejected (policy : RepeatPolicy) : TableSource → Prop where
  | illFormed {path : RawText} {bytes : ByteArray} (h : ¬ bytes.IsValidUTF8) :
      Rejected policy (.file path (.ok bytes))
  | malformed {source : TableSource} {lines : List (List Char)} {line : List Char}
      (hlines : source.lines? = some lines) (hline : line ∈ lines.filter Table.declares)
      (h : ∀ mode mnemonic opcode, ¬ Line.Declares line mode mnemonic opcode) :
      Rejected policy source
  | repeated {source : TableSource} {lines : List (List Char)} {a b : List Char} {opcode : Nat}
      (hpolicy : policy = .refuse) (hlines : source.lines? = some lines)
      (hlater : [a, b].Sublist (lines.filter Table.declares)) (ha : Line.DeclaresOpcode a opcode)
      (hb : Line.DeclaresOpcode b opcode) : Rejected policy source

variable {source : TableSource} {policy : RepeatPolicy}

theorem not_rejected_iff {lines : List (List Char)} (hlines : source.lines? = some lines) :
    ¬ source.Rejected policy ↔
      (∀ line ∈ lines.filter Table.declares, ∃ opcode, Line.DeclaresOpcode line opcode) ∧
        (policy = .refuse → (lines.filter Table.declares).Pairwise Line.Distinct) := by
  constructor
  · intro h
    constructor
    · intro line hline
      by_contra hnone
      apply h
      apply Rejected.malformed hlines hline
      intro mode mnemonic opcode hdeclares
      exact hnone ⟨opcode, mode, mnemonic, hdeclares⟩
    · intro hpolicy
      apply List.pairwise_iff_forall_sublist.mpr
      intro a b hlater opcode ha hb
      exact h (.repeated hpolicy hlines hlater ha hb)
  · rintro ⟨hall, hdistinct⟩ hrejected
    cases hrejected with
    | illFormed hinvalid => simp [lines?, String.fromUTF8?, hinvalid] at hlines
    | malformed hlines' hline hnone =>
      cases hlines.symm.trans hlines'
      obtain ⟨opcode, mode, mnemonic, hdeclares⟩ := hall _ hline
      exact hnone mode mnemonic opcode hdeclares
    | repeated hpolicy hlines' hlater ha hb =>
      cases hlines.symm.trans hlines'
      exact List.pairwise_iff_forall_sublist.mp (hdistinct hpolicy) hlater _ ha hb

theorem load_packaged :
    (load .packaged).result =
      (Table.ofLines Table.Packaged.fileName (Table.Packaged.lines.map String.toList)).result := by
  rw [load, Table.Packaged.load]
  exact Logged.result_bind rfl

theorem load_of_lines {lines : List (List Char)} (hlines : source.lines? = some lines) :
    ∃ filename, source.load.result = (Table.ofLines filename lines).result := by
  match source, hlines with
  | .packaged, hlines =>
    rw [lines?, Option.some.injEq] at hlines
    exact ⟨Table.Packaged.fileName, hlines ▸ load_packaged⟩
  | .file path (.ok bytes), hlines =>
    obtain ⟨text, htext, rfl⟩ := Option.map_eq_some_iff.mp hlines
    refine ⟨(Path.fileName (Path.normalise path)).shown, ?_⟩
    rw [load_file, Table.ofBytes, Text.decodeUtf8, htext]
    rfl

theorem rejected_of_no_lines (policy : RepeatPolicy) (h : source.Readable)
    (hlines : source.lines? = none) :
    source.Rejected policy ∧ ∀ records, source.load.result ≠ .ok records := by
  cases h with
  | packaged => cases hlines
  | file path bytes =>
    have hnone : String.fromUTF8? bytes = none := Option.map_eq_none_iff.mp hlines
    refine ⟨.illFormed ?_, ?_⟩
    · intro hvalid
      simp [String.fromUTF8?, hvalid] at hnone
    · intro records hload
      rw [load_file, Table.ofBytes, Text.decodeUtf8, hnone] at hload
      cases hload

/-- A table is built exactly if nothing makes its bytes unfit. -/
theorem exists_denseTable_iff (h : source.Readable) :
    (∃ table, (source.denseTable policy).result = .ok table) ↔ ¬ source.Rejected policy := by
  have hbuild : (∃ table, (source.denseTable policy).result = .ok table) ↔
      ∃ records, source.load.result = .ok records ∧
        (policy = .refuse → (records.map Record.opcode).Nodup) := by
    simp only [denseTable, Logged.bind_ok, ← DenseTable.build_ok_iff]
    tauto
  rw [hbuild]
  cases hlines : source.lines? with
  | none =>
    obtain ⟨hrejected, hload⟩ := rejected_of_no_lines policy h hlines
    simp [hrejected, hload]
  | some lines =>
    obtain ⟨filename, hload⟩ := load_of_lines hlines
    simp only [not_rejected_iff hlines, hload, Table.ofLines_ok_iff]
    constructor
    · rintro ⟨records, hread, hnodup⟩
      have hreadAs := Table.readLines_readAs hread
      exact ⟨exists_opcode_of_readAs hreadAs,
        fun hpolicy => (nodup_opcodes_iff_distinct hreadAs).mp (hnodup hpolicy)⟩
    · rintro ⟨hall, hdistinct⟩
      obtain ⟨records, hread⟩ := Table.exists_readLines filename 1 hall
      refine ⟨records, hread, fun hpolicy => ?_⟩
      exact (nodup_opcodes_iff_distinct (Table.readLines_readAs hread)).mpr (hdistinct hpolicy)

/-- Bytes that are unfit for a table are what stops it from being built. -/
theorem Rejected.denseTable_error (h : source.Readable) (hrejected : source.Rejected policy) :
    ∃ error, (source.denseTable policy).result = .error (.table error) := by
  cases hresult : (source.denseTable policy).result with
  | ok table => exact absurd hrejected ((exists_denseTable_iff h).mp ⟨table, hresult⟩)
  | error fault =>
    obtain ⟨error, rfl, _⟩ := denseTable_failsOnlyWith h policy fault hresult
    exact ⟨error, rfl⟩

theorem compiled_of_denseTable (h : source.Readable) {table : DenseTable}
    (htable : (source.denseTable policy).result = .ok table) : table.Compiled := by
  obtain ⟨records, hload, hbuild⟩ := Logged.bind_ok.mp htable
  exact ⟨policy, records, load_parsed h hload, hbuild⟩

end TableSource

end Cpu6502
