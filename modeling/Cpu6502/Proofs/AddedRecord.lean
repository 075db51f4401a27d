import Cpu6502.Proofs.DenseRows
import Cpu6502.Proofs.MnemonicOrder

namespace Cpu6502

namespace Mnemonics

/-- The index of a name says how many names are before it. -/
theorem indexOf?_eq_countP {r : Mnemonics} {name : String} (h : name ∈ r.names) :
    r.indexOf? name = some (r.names.countP (· < name)) := by
  obtain ⟨before, after, hsplit⟩ := List.append_of_mem h
  have hsorted := r.sorted
  rw [hsplit, List.pairwise_append, List.pairwise_cons] at hsorted
  obtain ⟨_, ⟨hafter, _⟩, hbefore⟩ := hsorted
  have hbelow : before.countP (· < name) = before.length := by
    apply List.countP_eq_length.mpr
    intro other hother
    exact decide_eq_true (hbefore other hother name List.mem_cons_self)
  have habove : (name :: after).countP (· < name) = 0 := by
    simp only [List.countP_eq_zero, decide_eq_true_eq, List.forall_mem_cons]
    exact ⟨String.lt_irrefl name, fun other hother => String.lt_asymm (hafter other hother)⟩
  rw [indexOf?_eq_some_iff, hsplit, List.countP_append, hbelow, habove]
  simp

theorem nodup_names (r : Mnemonics) : r.names.Nodup := by
  apply r.sorted.imp
  intro a b hlt
  exact ne_of_lt hlt

/-- One more name moves those behind it by one place. -/
theorem index_of_added {r r' : Mnemonics} {name other : String} {i j : Nat} (hnew : name ∉ r.names)
    (hmem : ∀ other, other ∈ r'.names ↔ other ∈ r.names ∨ other = name)
    (hi : r.indexOf? other = some i) (hj : r'.indexOf? other = some j) :
    j = i + if name < other then 1 else 0 := by
  have hperm : r'.names.Perm (name :: r.names) := by
    apply (List.perm_ext_iff_of_nodup r'.nodup_names (r.nodup_names.cons hnew)).mpr
    intro other
    rw [hmem, List.mem_cons, or_comm]
  have hother : other ∈ r.names := List.mem_of_getElem? (getElem?_of_indexOf? hi)
  have hother' : other ∈ r'.names := (hmem other).mpr (.inl hother)
  rw [indexOf?_eq_countP hother, Option.some.injEq] at hi
  rw [indexOf?_eq_countP hother', Option.some.injEq] at hj
  rw [← hi, ← hj, hperm.countP_eq, List.countP_cons]
  simp

end Mnemonics

namespace OpcodeIndex

variable {before after : List Record} {x : Record}

theorem last?_inserted (hafter : ∀ r ∈ after, r.opcode ≠ x.opcode) :
    last? (before ++ x :: after) x.opcode = some x :=
  last?_eq_some_iff.mpr ⟨before, after, rfl, rfl, hafter⟩

theorem last?_inserted_of_ne {opcode : Int} (h : opcode ≠ x.opcode) :
    last? (before ++ x :: after) opcode = last? (before ++ after) opcode := by
  simp [last?, allFor, h.symm]

theorem nodup_inserted (h : ((before ++ after).map Record.opcode).Nodup)
    (hnew : ∀ r ∈ before ++ after, r.opcode ≠ x.opcode) :
    ((before ++ x :: after).map Record.opcode).Nodup := by
  have hperm : ((before ++ x :: after).map Record.opcode).Perm
      (x.opcode :: (before ++ after).map Record.opcode) :=
    List.perm_middle.map Record.opcode
  apply hperm.nodup_iff.mpr
  apply h.cons
  rw [List.mem_map]
  intro hmem
  obtain ⟨r, hr, hopcode⟩ := hmem
  exact hnew r hr hopcode

end OpcodeIndex

open OpcodeIndex

namespace DenseTable

variable {policy : RepeatPolicy} {before after : List Record} {x : Record}
  {table table' : DenseTable}

theorem declaredBytes_inserted (hnonneg : 0 ≤ x.opcode) (hlt : x.opcode < 256) :
    declaredBytes (before ++ x :: after) = insert x.opcode (declaredBytes (before ++ after)) := by
  ext opcode
  simp only [declaredBytes, List.map_append, List.map_cons, Finset.mem_filter, List.mem_toFinset,
    List.mem_append, List.mem_cons, Finset.mem_insert]
  constructor
  · intro h
    obtain ⟨hbefore | rfl | hafter, hrange⟩ := h
    · exact .inr ⟨.inl hbefore, hrange⟩
    · exact .inl rfl
    · exact .inr ⟨.inr hafter, hrange⟩
  · intro h
    rcases h with rfl | ⟨hbefore | hafter, hrange⟩
    · exact ⟨.inr (.inl rfl), hnonneg, hlt⟩
    · exact ⟨.inl hbefore, hrange⟩
    · exact ⟨.inr (.inr hafter), hrange⟩

theorem unknownCount_inserted (hnew : ∀ r ∈ before ++ after, r.opcode ≠ x.opcode)
    (hnonneg : 0 ≤ x.opcode) (hlt : x.opcode < 256)
    (h : (build policy (before ++ after)).result = .ok table)
    (h' : (build policy (before ++ x :: after)).result = .ok table') :
    table'.unknownCount + 1 = table.unknownCount := by
  have hcount := unknownCount_add_card h
  have hcount' := unknownCount_add_card h'
  have hfresh : x.opcode ∉ declaredBytes (before ++ after) := by
    rw [declaredBytes, Finset.mem_filter, List.mem_toFinset, List.mem_map]
    intro hmem
    obtain ⟨⟨r, hr, hopcode⟩, _⟩ := hmem
    exact hnew r hr hopcode
  rw [declaredBytes_inserted hnonneg hlt, Finset.card_insert_of_notMem hfresh] at hcount'
  omega

theorem mem_names_inserted (h : (build policy (before ++ after)).result = .ok table)
    (h' : (build policy (before ++ x :: after)).result = .ok table') (name : String) :
    name ∈ table'.mnemonics.names ↔ name ∈ table.mnemonics.names ∨ name = x.mnemonic := by
  rw [(buildWith_ok h).1, (buildWith_ok h').1, Mnemonics.mem_ofRecords, Mnemonics.mem_ofRecords]
  simp only [List.perm_middle.mem_iff, List.mem_cons, or_and_right, exists_or, exists_eq_left,
    or_assoc]
  rw [or_comm, or_assoc, eq_comm (a := x.mnemonic)]

theorem row_inserted (hafter : ∀ r ∈ after, r.opcode ≠ x.opcode)
    (h' : (build policy (before ++ x :: after)).result = .ok table') {byte : UInt8}
    (hbyte : (byte.toNat : Int) = x.opcode) :
    (table'.row byte).record = x ∧ (table'.row byte).authored = true := by
  have hrow := row_declared h' byte
  rw [hrow.record_eq, hrow.authored_eq, hbyte, last?_inserted hafter]
  exact ⟨rfl, rfl⟩

theorem row_kept (h : (build policy (before ++ after)).result = .ok table)
    (h' : (build policy (before ++ x :: after)).result = .ok table') {byte : UInt8}
    (hbyte : (byte.toNat : Int) ≠ x.opcode) :
    (table'.row byte).record = (table.row byte).record ∧
      (table'.row byte).authored = (table.row byte).authored := by
  have hrow := row_declared h byte
  have hrow' := row_declared h' byte
  rw [hrow.record_eq, hrow'.record_eq, hrow.authored_eq, hrow'.authored_eq,
    last?_inserted_of_ne hbyte]
  exact ⟨rfl, rfl⟩

/-- The two indices of a row that is kept are those of its mnemonic. -/
theorem index_kept (h : (build policy (before ++ after)).result = .ok table)
    (h' : (build policy (before ++ x :: after)).result = .ok table') {byte : UInt8}
    (hbyte : (byte.toNat : Int) ≠ x.opcode) :
    table.mnemonics.indexOf? (table.row byte).record.mnemonic =
        some (table.row byte).mnemonicIndex ∧
      table'.mnemonics.indexOf? (table.row byte).record.mnemonic =
        some (table'.row byte).mnemonicIndex := by
  have hrow := (row_declared h byte).index_eq
  have hrow' := (row_declared h' byte).index_eq
  rw [(row_kept h h' hbyte).1] at hrow'
  rw [(buildWith_ok h).1, (buildWith_ok h').1]
  exact ⟨hrow, hrow'⟩

/-- What a table gains by one record, and what it keeps. -/
structure Gains (x : Record) (table table' : DenseTable) : Prop where
  row_new : ∀ byte : UInt8, byte.toNat = x.opcode →
    (table'.row byte).record = x ∧ (table'.row byte).authored = true
  row_kept : ∀ byte : UInt8, byte.toNat ≠ x.opcode →
    (table'.row byte).record = (table.row byte).record ∧
      (table'.row byte).authored = (table.row byte).authored
  unknownCount_eq : table'.unknownCount + 1 = table.unknownCount
  /-- A mnemonic that was there already leaves all numbers as they are. -/
  known : x.mnemonic ∈ table.mnemonics.names ∨ x.mnemonic = "UNK" →
    table'.mnemonics = table.mnemonics ∧
      ∀ byte : UInt8, byte.toNat ≠ x.opcode →
        (table'.row byte).mnemonicIndex = (table.row byte).mnemonicIndex
  /-- A new mnemonic moves those behind it by one. -/
  fresh : x.mnemonic ∉ table.mnemonics.names →
    (∀ name, name ∈ table'.mnemonics.names ↔ name ∈ table.mnemonics.names ∨ name = x.mnemonic) ∧
      ∀ byte : UInt8, byte.toNat ≠ x.opcode →
        ((table'.row byte).mnemonicIndex = (table.row byte).mnemonicIndex + 1 ↔
          codePoints x.mnemonic < codePoints (table.row byte).record.mnemonic) ∧
        ((table'.row byte).mnemonicIndex = (table.row byte).mnemonicIndex ↔
          codePoints (table.row byte).record.mnemonic < codePoints x.mnemonic)

theorem known_inserted (h : (build policy (before ++ after)).result = .ok table)
    (h' : (build policy (before ++ x :: after)).result = .ok table')
    (hknown : x.mnemonic ∈ table.mnemonics.names ∨ x.mnemonic = "UNK") :
    table'.mnemonics = table.mnemonics ∧
      ∀ byte : UInt8, byte.toNat ≠ x.opcode →
        (table'.row byte).mnemonicIndex = (table.row byte).mnemonicIndex := by
  have hmem : x.mnemonic ∈ table.mnemonics.names := by
    rcases hknown with hmem | hunknown
    · exact hmem
    · rw [hunknown]
      exact table.mnemonics.unknown_mem
  have hsame : table'.mnemonics = table.mnemonics := by
    apply Mnemonics.eq_of_mem_iff
    intro name
    rw [mem_names_inserted h h', or_iff_left_of_imp]
    intro hname
    rwa [hname]
  refine ⟨hsame, ?_⟩
  intro byte hbyte
  obtain ⟨hindex, hindex'⟩ := index_kept h h' hbyte
  rw [hsame, hindex, Option.some.injEq] at hindex'
  exact hindex'.symm

theorem fresh_inserted (h : (build policy (before ++ after)).result = .ok table)
    (h' : (build policy (before ++ x :: after)).result = .ok table')
    (hfresh : x.mnemonic ∉ table.mnemonics.names) {byte : UInt8}
    (hbyte : (byte.toNat : Int) ≠ x.opcode) :
    ((table'.row byte).mnemonicIndex = (table.row byte).mnemonicIndex + 1 ↔
      codePoints x.mnemonic < codePoints (table.row byte).record.mnemonic) ∧
    ((table'.row byte).mnemonicIndex = (table.row byte).mnemonicIndex ↔
      codePoints (table.row byte).record.mnemonic < codePoints x.mnemonic) := by
  obtain ⟨hindex, hindex'⟩ := index_kept h h' hbyte
  have hmoved := Mnemonics.index_of_added hfresh (mem_names_inserted h h') hindex hindex'
  have hne : (table.row byte).record.mnemonic ≠ x.mnemonic := by
    intro heq
    rw [← heq] at hfresh
    exact hfresh (List.mem_of_getElem? (Mnemonics.getElem?_of_indexOf? hindex))
  rw [← lt_iff_codePoints, ← lt_iff_codePoints]
  rcases lt_or_gt_of_ne hne with hbelow | habove
  · have hnot := String.lt_asymm hbelow
    rw [if_neg hnot] at hmoved
    simp [hmoved, hbelow, hnot]
  · have hnot := String.lt_asymm habove
    rw [if_pos habove] at hmoved
    simp [hmoved, habove, hnot]

/-- A record for a byte that had none changes one row, and the numbers of other mnemonics only if
its own is new. -/
theorem build_gains (policy : RepeatPolicy) {before after : List Record} {x : Record}
    (hnodup : ((before ++ after).map Record.opcode).Nodup)
    (hnew : ∀ r ∈ before ++ after, r.opcode ≠ x.opcode) (hnonneg : 0 ≤ x.opcode)
    (hlt : x.opcode < 256) :
    ∃ table table', (build policy (before ++ after)).result = .ok table ∧
      (build policy (before ++ x :: after)).result = .ok table' ∧ Gains x table table' := by
  obtain ⟨table, h⟩ := build_ok_iff.mpr fun _ : policy = .refuse => hnodup
  obtain ⟨table', h'⟩ := build_ok_iff.mpr fun _ : policy = .refuse => nodup_inserted hnodup hnew
  refine ⟨table, table', h, h', ?_, ?_, ?_, known_inserted h h', ?_⟩
  · intro byte hbyte
    exact row_inserted (fun r hr => hnew r (List.mem_append_right before hr)) h' hbyte
  · intro byte hbyte
    exact row_kept h h' hbyte
  · exact unknownCount_inserted hnew hnonneg hlt h h'
  · intro hfresh
    refine ⟨mem_names_inserted h h', ?_⟩
    intro byte hbyte
    exact fresh_inserted h h' hfresh hbyte

/-- A load whose mnemonic comes between those of the others, and a second jump. -/
theorem build_gains_load :
    let idle : Record := Sample.idle
    let jump : Record := Sample.jump
    let load : Record := Sample.load
    let again : Record := { jump with opcode := 0x6C, mode := .indirect }
    (∃ table table', (build .refuse [idle, jump]).result = .ok table ∧
      (build .refuse [idle, load, jump]).result = .ok table' ∧
      (table'.row 0xA9).record = load ∧ table'.unknownCount + 1 = table.unknownCount ∧
      (table'.row 0xEA).mnemonicIndex = (table.row 0xEA).mnemonicIndex + 1 ∧
      (table'.row 0x4C).mnemonicIndex = (table.row 0x4C).mnemonicIndex) ∧
    ∃ table table', (build .refuse [idle, jump]).result = .ok table ∧
      (build .refuse [again, idle, jump]).result = .ok table' ∧
      (table'.row 0x6C).record = again ∧ table'.mnemonics = table.mnemonics := by
  intro idle jump load again
  constructor
  · have hnodup : (([idle] ++ [jump]).map Record.opcode).Nodup := by decide
    have hnew : ∀ r ∈ [idle] ++ [jump], r.opcode ≠ load.opcode := by decide
    obtain ⟨table, table', h, h', hgains⟩ :=
      build_gains .refuse hnodup hnew (by decide) (by decide)
    have hnames : load.mnemonic ∉ table.mnemonics.names := by
      rw [(buildWith_ok h).1, Mnemonics.mem_ofRecords]
      simp [idle, jump, load, Sample.idle, Sample.jump, Sample.load, unknownMnemonic]
    have hidle : (table.row 0xEA).record = idle := (row_declared h 0xEA).record_eq
    have hjump : (table.row 0x4C).record = jump := (row_declared h 0x4C).record_eq
    obtain ⟨_, hindices⟩ := hgains.fresh hnames
    refine ⟨table, table', h, h', (hgains.row_new 0xA9 rfl).1, hgains.unknownCount_eq, ?_, ?_⟩
    · apply (hindices 0xEA (by decide)).1.mpr
      rw [hidle]
      decide
    · apply (hindices 0x4C (by decide)).2.mpr
      rw [hjump]
      decide
  · have hnodup : (([] ++ [idle, jump]).map Record.opcode).Nodup := by decide
    have hnew : ∀ r ∈ [] ++ [idle, jump], r.opcode ≠ again.opcode := by decide
    obtain ⟨table, table', h, h', hgains⟩ :=
      build_gains .refuse hnodup hnew (by decide) (by decide)
    have hnames : again.mnemonic ∈ table.mnemonics.names := by
      rw [(buildWith_ok h).1, Mnemonics.mem_ofRecords]
      exact .inl ⟨jump, by simp, rfl⟩
    exact ⟨table, table', h, h', (hgains.row_new 0x6C rfl).1, (hgains.known (.inl hnames)).1⟩

end DenseTable

end Cpu6502
