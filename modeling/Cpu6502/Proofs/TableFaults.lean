import Cpu6502.Proofs.DenseRows
import Cpu6502.Proofs.IllFormedBytes
import Cpu6502.TableSource

namespace Cpu6502

variable {α β : Type}

namespace TableFault

/-- The kinds of errors that stand in a line of their own. -/
def lineKinds : List Kind := [.malformed, .invalidOpcode, .unknownMode, .inconsistentLength]

/-- The kinds of errors with which a table is refused. -/
def tableKinds : List Kind := .duplicateOpcode :: lineKinds

end TableFault

open TableFault

/-- Nothing but an error in a table, of one of some kinds, stands in the way of a result. -/
def FailsOnlyWith (kinds : List Kind) (result : Except Fault α) : Prop :=
  ∀ fault, result = .error fault → ∃ error, fault = .table error ∧ error.kind ∈ kinds

theorem failsOnlyWith_ok (kinds : List Kind) (a : α) : FailsOnlyWith kinds (.ok a) := by
  intro fault h
  cases h

theorem failsOnlyWith_table {kinds : List Kind} {error : TableFault} (h : error.kind ∈ kinds) :
    FailsOnlyWith kinds (.error (.table error) : Except Fault α) := by
  intro fault hfault
  cases hfault
  exact ⟨error, rfl, h⟩

theorem FailsOnlyWith.mono {kinds kinds' : List Kind} {result : Except Fault α}
    (h : FailsOnlyWith kinds result) (hkinds : kinds ⊆ kinds') : FailsOnlyWith kinds' result := by
  intro fault hfault
  obtain ⟨error, herror, hkind⟩ := h fault hfault
  exact ⟨error, herror, hkinds hkind⟩

theorem FailsOnlyWith.bind {kinds : List Kind} {first : Logged α} {next : α → Logged β}
    (h : FailsOnlyWith kinds first.result)
    (hnext : ∀ a, first.result = .ok a → FailsOnlyWith kinds (next a).result) :
    FailsOnlyWith kinds (first >>= next).result := by
  intro fault hfault
  rcases Logged.bind_error.mp hfault with hfirst | ⟨a, ha, hlater⟩
  · exact h fault hfirst
  · exact hnext a ha fault hlater

/-- Whichever check of the fields fails first, its complaint is one about a line. -/
theorem Line.readFields_error {label mnemonic opcode length : Field} {complaint : Complaint}
    (h : readFields label mnemonic opcode length = .error complaint) :
    complaint.cause.kind ∈ lineKinds := by
  simp only [readFields, except_bind_error] at h
  rcases h with h | ⟨mode, _, h | ⟨name, _, h | ⟨byte, _, h | ⟨size, _, h⟩⟩⟩⟩
  · simp only [readMode] at h
    split at h <;> cases h
    simp [Cause.kind, lineKinds]
  · simp only [readMnemonic] at h
    split at h <;> cases h
    simp [Cause.kind, lineKinds]
  · simp only [readOpcode] at h
    split at h <;> cases h
    simp [Cause.kind, lineKinds]
  · simp only [readLength] at h
    split at h
    · split at h <;> cases h
      simp [Cause.kind, lineKinds]
    · cases h
      simp [Cause.kind, lineKinds]
  · split at h <;> cases h
    simp [Cause.kind, lineKinds]

theorem Record.ofLine_error {filename : String} {number : Int} {line : List Char}
    {error : TableFault} (h : ofLine filename number line = .error error) :
    error.kind ∈ lineKinds := by
  simp only [ofLine] at h
  split at h
  · split at h
    · cases h
    · rename_i complaint hcomplaint
      cases h
      exact Line.readFields_error hcomplaint
  · cases h
    simp [TableFault.kind, Cause.kind, lineKinds]

namespace Table

theorem readLines_error {filename : String} {number : Nat} {lines : List (List Char)}
    {error : TableFault} (h : readLines filename number lines = .error error) :
    error.kind ∈ lineKinds := by
  induction lines generalizing number with
  | nil => cases h
  | cons line rest ih =>
    unfold readLines at h
    split at h
    · split at h
      · rename_i e he
        cases h
        exact Record.ofLine_error he
      · split at h
        · rename_i e he
          cases h
          exact ih he
        · cases h
    · exact ih h

theorem ofLines_failsOnlyWith (filename : String) (lines : List (List Char)) :
    FailsOnlyWith lineKinds (ofLines filename lines).result := by
  refine .bind ?_ fun records _ => .bind (failsOnlyWith_ok _ _) fun _ _ => failsOnlyWith_ok _ _
  cases hread : readLines filename 1 lines with
  | error error => exact failsOnlyWith_table (readLines_error hread)
  | ok records => exact failsOnlyWith_ok _ _

theorem ofBytes_failsOnlyWith (filename : String) (bytes : ByteArray) :
    FailsOnlyWith lineKinds (ofBytes filename bytes).result := by
  unfold ofBytes
  split
  · exact failsOnlyWith_table (by simp [illFormed, TableFault.kind, Cause.kind, lineKinds])
  · exact ofLines_failsOnlyWith filename _

theorem ofBytes_parsed {filename : String} {bytes : ByteArray} {records : List Record}
    (h : (ofBytes filename bytes).result = .ok records) : ∀ r ∈ records, r.Parsed := by
  unfold ofBytes at h
  split at h
  · cases h
  · exact ofText_parsed h

end Table

namespace TableSource

/-- The table that comes with the program can be read, and so can any file with content. -/
inductive Readable : TableSource → Prop
  | packaged : Readable packaged
  | file (path : RawText) (bytes : ByteArray) : Readable (file path (.ok bytes))

variable {source : TableSource}

theorem load_file (path : RawText) (bytes : ByteArray) :
    (load (.file path (.ok bytes))).result =
      (Table.ofBytes (Path.fileName (Path.normalise path)).shown bytes).result := rfl

theorem load_failsOnlyWith (h : source.Readable) : FailsOnlyWith lineKinds source.load.result := by
  cases h with
  | packaged =>
    exact .bind (failsOnlyWith_ok _ _) fun _ _ => Table.ofLines_failsOnlyWith _ _
  | file path bytes =>
    rw [load_file]
    exact Table.ofBytes_failsOnlyWith _ bytes

theorem load_parsed (h : source.Readable) {records : List Record}
    (hload : source.load.result = .ok records) : ∀ r ∈ records, r.Parsed := by
  cases h with
  | packaged =>
    obtain ⟨_, _, hlines⟩ := Logged.bind_ok.mp hload
    exact Table.ofLines_parsed hlines
  | file path bytes =>
    rw [load_file] at hload
    exact Table.ofBytes_parsed hload

theorem denseTable_failsOnlyWith (h : source.Readable) (policy : RepeatPolicy) :
    FailsOnlyWith tableKinds (source.denseTable policy).result := by
  refine .bind ((load_failsOnlyWith h).mono (List.subset_cons_self _ _)) ?_
  intro records _ fault hfault
  obtain ⟨error, rfl, hkind⟩ := DenseTable.build_error hfault
  exact ⟨error, rfl, hkind ▸ List.mem_cons_self⟩

theorem declarations_failsOnlyWith (h : source.Readable) (policy : RepeatPolicy)
    (ids : Identifiers) : FailsOnlyWith tableKinds (source.declarations policy ids).result :=
  (denseTable_failsOnlyWith h policy).bind fun _ _ =>
    .bind (failsOnlyWith_ok _ _) fun _ _ => failsOnlyWith_ok _ _

theorem denseTable_adequate (h : source.Readable) {policy : RepeatPolicy} {table : DenseTable}
    (htable : (source.denseTable policy).result = .ok table) : table.Adequate := by
  obtain ⟨records, hload, hbuild⟩ := Logged.bind_ok.mp htable
  exact DenseTable.Parsed.adequate ⟨_, policy, records, load_parsed h hload, hbuild⟩

theorem declarations_ok_iff {policy : RepeatPolicy} {ids : Identifiers} {text : String} :
    (source.declarations policy ids).result = .ok text ↔
      ∃ table, (source.denseTable policy).result = .ok table ∧
        Declarations.all table ids = text := by
  refine Logged.bind_ok.trans (exists_congr fun table => and_congr_right fun _ => ?_)
  refine Logged.bind_ok.trans ⟨?_, fun h => ⟨(), rfl, congrArg Except.ok h⟩⟩
  rintro ⟨_, _, h⟩
  exact Except.ok.inj h

/-- Once a table is read, only an opcode that it repeats against the policy keeps it from its
declarations. -/
theorem exists_declarations_iff (policy : RepeatPolicy) (ids : Identifiers) :
    (∃ text, (source.declarations policy ids).result = .ok text) ↔
      ∃ records, source.load.result = .ok records ∧
        (policy = .refuse → (records.map Record.opcode).Nodup) := by
  simp only [declarations_ok_iff, denseTable, Logged.bind_ok, ← DenseTable.build_ok_iff]
  tauto

/-- A source that can be read fails with an error in its table or not at all, and a table that is
built leaves no byte of a buffer undecoded. -/
theorem only_table_faults (h : source.Readable) (policy : RepeatPolicy) (ids : Identifiers) :
    FailsOnlyWith lineKinds source.load.result ∧
    FailsOnlyWith tableKinds (source.denseTable policy).result ∧
    FailsOnlyWith tableKinds (source.declarations policy ids).result ∧
    ((∃ text, (source.declarations policy ids).result = .ok text) ↔
      ∃ records, source.load.result = .ok records ∧
        (policy = .refuse → (records.map Record.opcode).Nodup)) ∧
    (∀ path bytes, source = .file path (.ok bytes) →
      ∀ position, Text.decodeUtf8 bytes = .error position → position < bytes.size) ∧
    ∀ table, (source.denseTable policy).result = .ok table →
      ∀ (data : Array UInt8) (address position : Int), 0 ≤ position → position < data.size →
        ∃ i, Decode.instructionAt table data address position = .ok i := by
  refine ⟨load_failsOnlyWith h, denseTable_failsOnlyWith h policy,
    declarations_failsOnlyWith h policy ids, exists_declarations_iff policy ids, ?_, ?_⟩
  · intro path bytes _ position hposition
    exact (Text.decodeUtf8_error hposition).1
  · intro table htable data address position hpos hlt
    exact Decode.instructionAt_ok (denseTable_adequate h htable) hpos hlt address

/-- A table that ends within a character, and one with a branch, which a buffer cuts off. -/
theorem only_table_faults_cut :
    let cut : ByteArray := ⟨#[0x23, 0x0A, 0xE2, 0x82]⟩
    let whole : ByteArray := "Relative|BNE|D0|2".toUTF8
    Text.decodeUtf8 cut = .error 2 ∧ 2 < cut.size ∧
    (∃ error, (declarations (.file "table.txt" (.ok cut)) .lastWins {}).result =
      .error (.table error) ∧ error.kind ∈ tableKinds) ∧
    ∃ table i, (denseTable (.file "table.txt" (.ok whole)) .refuse).result = .ok table ∧
      Decode.instructionAt table #[0xEA, 0xD0] (-1) 1 = .ok i := by
  intro cut whole
  have hcut : Text.decodeUtf8 cut = .error 2 := by decide +kernel
  obtain ⟨_, _, hdeclarations, hread, hposition, _⟩ :=
    only_table_faults (.file "table.txt" cut) .lastWins {}
  refine ⟨hcut, hposition "table.txt" cut rfl 2 hcut, ?_, ?_⟩
  · cases hresult : (declarations (.file "table.txt" (.ok cut)) .lastWins {}).result with
    | error fault =>
      obtain ⟨error, rfl, hkind⟩ := hdeclarations fault hresult
      exact ⟨error, rfl, hkind⟩
    | ok text =>
      obtain ⟨records, hload, _⟩ := hread.mp ⟨text, hresult⟩
      have : (load (.file "table.txt" (.ok cut))).result.isOk = false := by decide +kernel
      simp [hload, Except.isOk, Except.toBool] at this
  · obtain ⟨table, htable⟩ : ∃ table, (denseTable (.file "table.txt" (.ok whole)) .refuse).result =
        .ok table := except_isOk_iff.mp (by decide +kernel)
    obtain ⟨_, _, _, _, _, hdecode⟩ := only_table_faults (.file "table.txt" whole) .refuse {}
    obtain ⟨i, hi⟩ := hdecode table htable #[0xEA, 0xD0] (-1) 1 (by omega) (by decide)
    exact ⟨table, i, htable, hi⟩

end TableSource

end Cpu6502
