import Cpu6502.Proofs.DeclarationLines
import Cpu6502.Proofs.ParsedTable

namespace Cpu6502.Declarations

variable {ids : Identifiers}

/-- What the entry of a row says. -/
def entryOf (row : Row) : Entry :=
  { opcode := row.record.opcode.toNat
    mnemonic := row.record.mnemonic
    mnemonicIndex := row.mnemonicIndex
    length := row.record.length.toNat
    mode := row.record.mode }

/-- What the entry of a row refers to. -/
def referenceOf (ids : Identifiers) (row : Row) : Reference :=
  { opcode := row.record.opcode.toNat
    enumerator := (ids.mnemonicEnumerator row.record.mnemonic).toList
    length := row.record.length.toNat
    mode := (ids.modeEnumerator row.record.mode).toList }

def enumeratorLines (mnemonics : Mnemonics) (ids : Identifiers) : List (List Char) :=
  mnemonics.items.map fun item => (enumeratorLine ids item).toList

def modeLines (ids : Identifiers) : List (List Char) :=
  Mode.all.map fun mode => (ids.modeEnumerator mode).toList

def entryLines (table : DenseTable) (ids : Identifiers) : List (List Char) :=
  table.rows.toList.map fun row => (entry ids row).toList

/-- The lines of the four blocks. -/
def groups (table : DenseTable) (ids : Identifiers) : List (List (List Char)) :=
  [blockLines ("const char " ++ ids.mnemonicArray ++ "[][4] =").toList
      [namesLine table.mnemonics.names],
    blockLines ("enum " ++ ids.mnemonicEnum).toList (enumeratorLines table.mnemonics ids),
    blockLines ("enum " ++ ids.modeEnum).toList (modeLines ids),
    blockLines (ids.entryType ++ " " ++ ids.tableArray ++ "[256] =").toList (entryLines table ids)]

/-- Each declaration is the text of its lines. -/
theorem parts_toList (table : DenseTable) (ids : Identifiers) :
    [mnemonicArray table.mnemonics ids, mnemonicEnum table.mnemonics ids, modeEnum ids,
      tableArray table ids].map String.toList = (groups table ids).map unlines := by
  have hitems : table.mnemonics.items ≠ [] := by
    simpa [Mnemonics.items] using names_ne_nil table.mnemonics
  have hline :
      (",".intercalate (table.mnemonics.names.map fun name => "\"" ++ name ++ "\"")).toList =
        namesLine table.mnemonics.names := by
    simp [namesLine, String.toList_intercalate, Function.comp_def]
  have hone (body : String) : ",\n".intercalate [body] = body := by simp
  have hnames : (mnemonicArray table.mnemonics ids).toList =
      unlines (blockLines ("const char " ++ ids.mnemonicArray ++ "[][4] =").toList
        [namesLine table.mnemonics.names]) := by
    rw [mnemonicArray, ← hone (",".intercalate _), block_toList _ (by simp), List.map_singleton,
      hline]
  have henumerators : (mnemonicEnum table.mnemonics ids).toList =
      unlines (blockLines ("enum " ++ ids.mnemonicEnum).toList
        (enumeratorLines table.mnemonics ids)) := by
    rw [mnemonicEnum, block_toList _ (by simpa using hitems), List.map_map]
    rfl
  have hmodes : (modeEnum ids).toList =
      unlines (blockLines ("enum " ++ ids.modeEnum).toList (modeLines ids)) := by
    rw [modeEnum, block_toList _ (by simp [Mode.all]), List.map_map]
    rfl
  have hentries : (tableArray table ids).toList =
      unlines (blockLines (ids.entryType ++ " " ++ ids.tableArray ++ "[256] =").toList
        (entryLines table ids)) := by
    rw [tableArray, block_toList _ (by simp), List.map_map]
    rfl
  simp only [List.map_cons, List.map_nil, hnames, henumerators, hmodes, hentries, groups]

theorem all_toList (table : DenseTable) (ids : Identifiers) :
    (all table ids).toList = unlines ([[]].intercalate (groups table ids)) := by
  rw [← unlines_intercalate, ← parts_toList, all, String.toList_intercalate]
  rfl

/-- The facts about a row that its entry depends on. -/
theorem row_numbers {table : DenseTable} (ht : table.Parsed) (byte : UInt8) :
    (table.row byte).record.opcode = (byte.toNat : Nat) ∧
      (table.row byte).record.length = ((table.row byte).record.mode.length : Nat) := by
  have hrow := ht.row_sound byte
  exact ⟨hrow.opcode_eq, hrow.regular.length_eq⟩

theorem word_name {table : DenseTable} (ht : table.Compiled) {name : String}
    (hname : name ∈ table.mnemonics.names) : Word name.toList :=
  word_mnemonic (ht.mnemonic_text name hname)

theorem word_item {table : DenseTable} (ht : table.Compiled) {item : String × Nat}
    (hitem : item ∈ table.mnemonics.items) : Word item.1.toList :=
  word_name ht (List.fst_mem_of_mem_zipIdx hitem)

theorem item_enumeratorLines {table : DenseTable} (ht : table.Compiled) (hids : ids.Plain) :
    ∀ line ∈ enumeratorLines table.mnemonics ids, Item line ∧ line.getLast? ≠ some ',' := by
  intro line hline
  obtain ⟨item, hitem, rfl⟩ := List.mem_map.mp hline
  exact item_enumeratorLine hids (word_item ht hitem)

theorem item_modeLines (hids : ids.Plain) :
    ∀ line ∈ modeLines ids, Item line ∧ line.getLast? ≠ some ',' := by
  intro line hline
  obtain ⟨mode, _, rfl⟩ := List.mem_map.mp hline
  exact item_modeEnumerator hids mode

theorem item_entryLines {table : DenseTable} (ht : table.Parsed) (hids : ids.Plain) :
    ∀ line ∈ entryLines table ids, Item line ∧ line.getLast? ≠ some ',' := by
  intro line hline
  obtain ⟨row, hrow, rfl⟩ := List.mem_map.mp hline
  obtain ⟨byte, rfl⟩ := DenseTable.mem_rows hrow
  obtain ⟨hopcode, hlength⟩ := row_numbers ht byte
  have hname := word_mnemonic (ht.row_sound byte).regular.mnemonic_text
  rw [entry_toList hopcode hlength]
  exact item_entryText hids.entryType (word_toDigits (by omega) (by omega) _)
    (word_mnemonicEnumerator hids hname) (word_toDigits (by omega) (by omega) _)
    (word_modeEnumerator hids _)

/-- None of the lines is empty or has a break within. -/
theorem item_of_groups {table : DenseTable} (ht : table.Compiled) (hids : ids.Plain) :
    ∀ group ∈ groups table ids, ∀ line ∈ group, Item line := by
  obtain ⟨harray, henum, hmodes, htable⟩ := oneLine_headers hids
  intro group hgroup line hline
  simp only [groups, List.mem_cons, List.not_mem_nil, or_false] at hgroup
  rcases hgroup with rfl | rfl | rfl | rfl
  · refine mem_blockLines harray ?_ hline
    intro item hitem
    rw [List.mem_singleton.mp hitem]
    exact item_namesLine (names_ne_nil table.mnemonics) fun name => word_name ht
  · exact mem_blockLines henum (fun item hitem => (item_enumeratorLines ht hids item hitem).1) hline
  · exact mem_blockLines hmodes (fun item hitem => (item_modeLines hids item hitem).1) hline
  · exact mem_blockLines htable (fun item hitem => (item_entryLines ht.parsed hids item hitem).1)
      hline

theorem blocks_all {table : DenseTable} (ht : table.Compiled) (hids : ids.Plain) :
    blocks (all table ids).toList = groups table ids := by
  rw [all_toList]
  exact blocks_unlines (by simp [groups]) (item_of_groups ht hids)

/-- The blocks of the declarations are the lines of each of them. -/
theorem blocks_parts {table : DenseTable} (ht : table.Compiled) (hids : ids.Plain) :
    blocks (all table ids).toList =
      [mnemonicArray table.mnemonics ids, mnemonicEnum table.mnemonics ids, modeEnum ids,
        tableArray table ids].map fun part => Text.lines part.toList := by
  have hgroups : (groups table ids).map (Text.lines ∘ unlines) = groups table ids := by
    rw [List.map_congr_left (g := id), List.map_id]
    intro group hgroup
    apply lines_unlines
    intro line hline
    exact (item_of_groups ht hids group hgroup line hline).2
  have hparts := congrArg (List.map Text.lines) (parts_toList table ids)
  rw [List.map_map, List.map_map, hgroups] at hparts
  rw [blocks_all ht hids]
  exact hparts.symm

theorem readEnumerator_lines {table : DenseTable} (ht : table.Compiled) (hids : ids.Plain) :
    (enumeratorLines table.mnemonics ids).mapM readEnumerator =
      some (enumerators table.mnemonics ids) := by
  apply mapM_map_some
  intro item hitem
  rw [enumeratorLine_toList]
  exact readEnumerator_line (word_mnemonicEnumerator hids (word_item ht hitem)) item.2

theorem readReference_lines {table : DenseTable} (ht : table.Parsed) (hids : ids.Plain) :
    (entryLines table ids).mapM readReference =
      some (table.rows.toList.map (referenceOf ids)) := by
  apply mapM_map_some
  intro row hrow
  obtain ⟨byte, rfl⟩ := DenseTable.mem_rows hrow
  obtain ⟨hopcode, hlength⟩ := row_numbers ht byte
  have hname := word_mnemonic (ht.row_sound byte).regular.mnemonic_text
  rw [entry_toList hopcode hlength, readReference_entryText hids.entryType
    (word_mnemonicEnumerator hids hname) (word_modeEnumerator hids _)]
  simp [referenceOf, hopcode, hlength]

/-- What stands between the braces of the four blocks. -/
theorem inner_all {table : DenseTable} (ht : table.Compiled) (hids : ids.Plain) :
    (blocks (all table ids).toList).map inner =
      [[namesLine table.mnemonics.names], commaLines (enumeratorLines table.mnemonics ids),
        commaLines (modeLines ids), commaLines (entryLines table ids)] := by
  have hone (line : List Char) : commaLines [line] = [line] := rfl
  simp only [blocks_all ht hids, groups, List.map_cons, List.map_nil, inner_blockLines, hone]

theorem readNames_all {table : DenseTable} (ht : table.Compiled) :
    readNames (namesLine table.mnemonics.names) = table.mnemonics.names :=
  readNames_namesLine (names_ne_nil table.mnemonics) fun _ => word_name ht

/-- No item of the blocks ends in a comma of its own. -/
theorem dropComma_all {table : DenseTable} (ht : table.Compiled) (hids : ids.Plain) :
    (commaLines (enumeratorLines table.mnemonics ids)).map dropComma =
        enumeratorLines table.mnemonics ids ∧
      (commaLines (modeLines ids)).map dropComma = modeLines ids ∧
      (commaLines (entryLines table ids)).map dropComma = entryLines table ids :=
  ⟨dropComma_commaLines fun item hitem => (item_enumeratorLines ht hids item hitem).2,
    dropComma_commaLines fun item hitem => (item_modeLines hids item hitem).2,
    dropComma_commaLines fun item hitem => (item_entryLines ht.parsed hids item hitem).2⟩

/-- The symbols that the declarations of a table consist of. -/
def symbols (table : DenseTable) (ids : Identifiers) : Symbols :=
  { names := table.mnemonics.names
    enumerators := enumerators table.mnemonics ids
    modes := modeLines ids
    references := table.rows.toList.map (referenceOf ids) }

theorem readSymbols_all {table : DenseTable} (ht : table.Compiled) (hids : ids.Plain) :
    readSymbols (all table ids).toList = some (symbols table ids) := by
  obtain ⟨hitems, hmodes, hentries⟩ := dropComma_all ht hids
  simp only [readSymbols, inner_all ht hids, readNames_all ht, hitems, hmodes, hentries,
    readEnumerator_lines ht hids, readReference_lines ht.parsed hids, Option.bind_eq_bind,
    Option.bind_some]
  rfl

/-- The entry of a row is found with the numbers that the other blocks declare. -/
theorem resolve_references {table : DenseTable} (ht : table.Parsed) (ids : Identifiers) :
    (symbols table ids).references.mapM (symbols table ids).resolve =
      some (table.rows.toList.map entryOf) := by
  apply mapM_map_some
  intro row hrow
  obtain ⟨byte, rfl⟩ := DenseTable.mem_rows hrow
  have hindex := (ht.row_sound byte).index_eq
  simp [Symbols.resolve, symbols, referenceOf, modeLines, lookup_enumerators hindex,
    Mnemonics.getElem?_of_indexOf? hindex, lookup_modes, entryOf]

/-- All of a table is read from its declarations. -/
theorem read_all {table : DenseTable} (ht : table.Compiled) (hids : ids.Plain) :
    read (all table ids).toList =
      some { names := table.mnemonics.names
             enumerators := enumerators table.mnemonics ids
             entries := table.rows.toList.map entryOf } := by
  simp only [read, readSymbols_all ht hids, resolve_references ht.parsed ids, Option.bind_eq_bind,
    Option.bind_some]
  rfl

/-- The entry says what the row holds. -/
structure Entry.Matches (e : Entry) (row : Row) : Prop where
  opcode_eq : e.opcode = row.record.opcode
  mnemonic_eq : e.mnemonic = row.record.mnemonic
  mnemonicIndex_eq : e.mnemonicIndex = row.mnemonicIndex
  length_eq : e.length = row.record.length
  mode_eq : e.mode = row.record.mode

theorem entryOf_matches {table : DenseTable} (ht : table.Parsed) (byte : UInt8) :
    (entryOf (table.row byte)).Matches (table.row byte) := by
  obtain ⟨hopcode, hlength⟩ := row_numbers ht byte
  exact ⟨by simp [entryOf, hopcode], rfl, rfl, by simp [entryOf, hlength], rfl⟩

/-- What an entry is made from. -/
def printed (row : Row) : Int × String × Int × Mode :=
  (row.record.opcode, row.record.mnemonic, row.record.length, row.record.mode)

/-- Locations and numbers of mnemonics have no place in the declarations. -/
theorem all_congr {table table' : DenseTable}
    (hnames : table.mnemonics.names = table'.mnemonics.names)
    (hrows : table.rows.toList.map printed = table'.rows.toList.map printed) :
    all table ids = all table' ids := by
  have hentries (t : DenseTable) : t.rows.toList.map (entry ids) =
      (t.rows.toList.map printed).map fun p =>
        entry ids
          { record := { opcode := p.1, mnemonic := p.2.1, length := p.2.2.1, mode := p.2.2.2 }
            mnemonicIndex := 0
            authored := true } := by
    rw [List.map_map]
    rfl
  simp only [all, mnemonicArray, mnemonicEnum, tableArray, Mnemonics.items, hnames, hentries, hrows]

/-- What is read from the declarations of a table is all that they say of it, so tables with the
same declarations differ in none of it. -/
theorem read_back :
    (∀ (table : DenseTable) (ids : Identifiers), table.Compiled → ids.Plain →
      blocks (all table ids).toList =
        [mnemonicArray table.mnemonics ids, mnemonicEnum table.mnemonics ids, modeEnum ids,
          tableArray table ids].map (fun part => Text.lines part.toList) ∧
      ∃ content, read (all table ids).toList = some content ∧
        content.names = table.mnemonics.names ∧
        content.enumerators = (table.mnemonics.items.map fun item =>
          ((ids.mnemonicEnumerator item.1).toList, item.2)) ∧
        content.entries.length = 256 ∧
        ∀ byte : UInt8, ∃ e, content.entries[byte.toNat]? = some e ∧ e.opcode = byte.toNat ∧
          e.Matches (table.row byte)) ∧
    ∀ (table table' : DenseTable) (ids ids' : Identifiers), table.Compiled → table'.Compiled →
      ids.Plain → ids'.Plain → all table ids = all table' ids' →
      table.mnemonics.names = table'.mnemonics.names ∧
      ∀ byte : UInt8,
        (table.row byte).record.mnemonic = (table'.row byte).record.mnemonic ∧
        (table.row byte).mnemonicIndex = (table'.row byte).mnemonicIndex ∧
        (table.row byte).record.length = (table'.row byte).record.length ∧
        (table.row byte).record.mode = (table'.row byte).record.mode := by
  constructor
  · intro table ids ht hids
    refine ⟨blocks_parts ht hids, _, read_all ht hids, rfl, rfl, by simp, ?_⟩
    intro byte
    have hrow : (table.rows.toList.map entryOf)[byte.toNat]? = some (entryOf (table.row byte)) := by
      rw [List.getElem?_map, DenseTable.rows_getElem?, Option.map_some]
    have hopcode := (row_numbers ht.parsed byte).1
    exact ⟨_, hrow, by simp [entryOf, hopcode], entryOf_matches ht.parsed byte⟩
  · intro table table' ids ids' ht ht' hids hids' hsame
    have hread := read_all ht hids
    rw [hsame, read_all ht' hids', Option.some.injEq, Content.mk.injEq] at hread
    obtain ⟨hnames, _, hentries⟩ := hread
    refine ⟨hnames.symm, ?_⟩
    intro byte
    have hentry := congrArg (fun entries => entries[byte.toNat]?) hentries
    simp only [List.getElem?_map, DenseTable.rows_getElem?, Option.map_some, Option.some.injEq]
      at hentry
    have hrow := entryOf_matches ht.parsed byte
    have hrow' := entryOf_matches ht'.parsed byte
    rw [hentry] at hrow'
    exact ⟨hrow.mnemonic_eq.symm.trans hrow'.mnemonic_eq,
      hrow.mnemonicIndex_eq.symm.trans hrow'.mnemonicIndex_eq,
      hrow.length_eq.symm.trans hrow'.length_eq, hrow.mode_eq.symm.trans hrow'.mode_eq⟩

/-- Tables of one jump, read on different lines, in declarations without a suffix for mnemonics. -/
theorem read_back_jump :
    let jump (line : Int) : Record := Sample.jump (Sample.place line)
    let ids : Identifiers := { enumeratorSuffix := "", modeEnum := "Mode_6502" }
    ∃ table table' content, (DenseTable.build .refuse [jump 1]).result = .ok table ∧
      (DenseTable.build .lastWins [jump 2]).result = .ok table' ∧
      read (all table ids).toList = some content ∧ content.names = ["JMP", "UNK"] ∧
      content.enumerators = [("JMP".toList, 0), ("UNK".toList, 1)] ∧
      all table ids = all table' ids ∧
      (table.row 0x4C).record.mode = (table'.row 0x4C).record.mode := by
  intro jump ids
  obtain ⟨table, htable⟩ : ∃ table, (DenseTable.build .refuse [jump 1]).result = .ok table :=
    except_isOk_iff.mp (by decide +kernel)
  obtain ⟨table', htable'⟩ : ∃ table, (DenseTable.build .lastWins [jump 2]).result = .ok table :=
    except_isOk_iff.mp (by decide +kernel)
  have hread : (Table.ofText "table.txt" "Absolute|JMP|4C|3".toList).result = .ok [jump 1] := rfl
  have hread' : (Table.ofText "table.txt" "\nAbsolute|JMP|4c|3".toList).result = .ok [jump 2] := rfl
  have hcompiled : table.Compiled := ⟨_, _, Table.ofText_parsed hread, htable⟩
  have hcompiled' : table'.Compiled := ⟨_, _, Table.ofText_parsed hread', htable'⟩
  have hplain : ids.Plain := by
    constructor
    all_goals exact word_iff.mpr (by decide)
  have hmnemonics : table.mnemonics = .ofRecords [jump 1] := (DenseTable.buildWith_ok htable).1
  have hmnemonics' : table'.mnemonics = .ofRecords [jump 2] := (DenseTable.buildWith_ok htable').1
  have hrows : table.rows.toList.map printed = table'.rows.toList.map printed := by
    have : (DenseTable.build .refuse [jump 1]).result.toOption.map (·.rows.toList.map printed) =
        (DenseTable.build .lastWins [jump 2]).result.toOption.map (·.rows.toList.map printed) := by
      decide +kernel
    rw [htable, htable'] at this
    exact Option.some.inj this
  have hsame : all table ids = all table' ids :=
    all_congr (by rw [hmnemonics, hmnemonics']; rfl) hrows
  obtain ⟨_, content, hcontent, hnames, henumerators, _⟩ := read_back.1 table ids hcompiled hplain
  rw [hmnemonics] at hnames henumerators
  refine ⟨table, table', content, htable, htable', hcontent, hnames.trans (by decide +kernel),
    henumerators.trans (by decide +kernel), hsame, ?_⟩
  exact ((read_back.2 table table' ids ids hcompiled hcompiled' hplain hplain hsame).2 0x4C).2.2.2

end Cpu6502.Declarations
