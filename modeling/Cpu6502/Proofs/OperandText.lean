import Cpu6502.Proofs.OperandReader
import Cpu6502.Proofs.ParsedTable

namespace Cpu6502.Decode

/-- The bytes of an instruction, from its opcode, its address and the text of its operand. -/
def reassemble (table : DenseTable) (opcode address : Int) (operand : String) :
    Option (List UInt8) :=
  match table.rowAt opcode with
  | .ok row => (operandBytes? row.record.mode address operand).map (.ofNat opcode.toNat :: ·)
  | .error _ => none

/-- The text of the operands of a mode, all digits taken for zeros. -/
def template : Mode → String
  | .implied => ""
  | .accumulator => "0"
  | .absolute | .relative => "$0000"
  | .absoluteX => "$0000,X"
  | .absoluteY => "$0000,Y"
  | .indirect => "($0000)"
  | .immediate => "#$00"
  | .zeroPage => "$00"
  | .zeroPageX => "$00,X"
  | .zeroPageY => "$00,Y"
  | .indirectPlusY => "($00),Y"
  | .indirectX => "($00,X)"
  | .indirectY => "($00,Y)"

/-- A text in which all digits are taken for zeros. -/
def outline (text : List Char) : List Char := text.map fun c => if isHexDigit c then '0' else c

theorem template_eq {m m' : Mode} (h : template m = template m') :
    m = m' ∨ m = .absolute ∧ m' = .relative ∨ m = .relative ∧ m' = .absolute := by
  have hall : ∀ m ∈ Mode.all, ∀ m' ∈ Mode.all, template m = template m' →
      m = m' ∨ m = .absolute ∧ m' = .relative ∨ m = .relative ∧ m' = .absolute := by decide
  exact hall m m.mem_all m' m'.mem_all h

theorem outline_upperHex {width : Nat} (hw : 0 < width) {n : Nat} (hn : n < 16 ^ width) :
    outline (Text.upperHex width n).toList = List.replicate width '0' := by
  obtain ⟨ds, hds, hlen, hlt, _⟩ := Text.upperHex_width hw hn
  rw [hds, ← hlen, outline, List.map_map]
  apply List.eq_replicate_iff.mpr
  refine ⟨by simp, ?_⟩
  intro c hc
  obtain ⟨d, hd, rfl⟩ := List.mem_map.mp hc
  simp [isHexDigit_upperDigit (hlt d hd)]

theorem outline_byte {before after : String} {bytes : List UInt8} {operand : Operand}
    (h : byte before after bytes = some operand) :
    outline operand.text.toList =
      outline before.toList ++ '$' :: '0' :: '0' :: outline after.toList := by
  match bytes with
  | b :: _ =>
    have hdigits := outline_upperHex (show 0 < 2 by omega) (n := b.toNat) b.toNat_lt
    have hdollar : isHexDigit '$' = false := by decide
    cases h
    simp only [outline] at hdigits
    simp [outline, hdigits, hdollar, List.replicate_succ]

theorem outline_word {before after : String} {bytes : List UInt8} {operand : Operand}
    (h : word before after bytes = some operand) :
    outline operand.text.toList =
      outline before.toList ++ '$' :: '0' :: '0' :: '0' :: '0' :: outline after.toList := by
  match bytes with
  | low :: high :: _ =>
    have hw : low.toNat + 256 * high.toNat < 16 ^ 4 := by
      have := low.toNat_lt
      have := high.toNat_lt
      omega
    have hdigits := outline_upperHex (show 0 < 4 by omega) hw
    have hdollar : isHexDigit '$' = false := by decide
    cases h
    simp only [outline, Int.natCast_add, Int.natCast_mul, Nat.cast_ofNat] at hdigits
    simp [outline, hdigits, hdollar, List.replicate_succ]

theorem outline_branch {next : Int} {bytes : List UInt8} {operand : Operand}
    (h : branch next bytes = some operand) : outline operand.text.toList = "$0000".toList := by
  obtain ⟨b, _, rfl⟩ := Option.map_eq_some_iff.mp h
  obtain ⟨n, hn, hlt⟩ := target_range next b
  have hdigits := outline_upperHex (show 0 < 4 by omega) hlt
  have hdollar : isHexDigit '$' = false := by decide
  simp only [outline] at hdigits
  simp [outline, hn, hdigits, hdollar, List.replicate_succ]

/-- The outline of an operand depends on nothing but its mode. -/
theorem outline_operand {mode : Mode} {bytes : List UInt8} {next : Int} {operand : Operand}
    (h : operand? mode bytes next = some operand) :
    outline operand.text.toList = (template mode).toList := by
  cases mode with
  | implied => cases h; decide
  | accumulator => cases h; decide
  | relative => exact outline_branch h
  | absolute => rw [outline_word h]; decide
  | absoluteX => rw [outline_word h]; decide
  | absoluteY => rw [outline_word h]; decide
  | indirect => rw [outline_word h]; decide
  | immediate => rw [outline_byte h]; decide
  | zeroPage => rw [outline_byte h]; decide
  | zeroPageX => rw [outline_byte h]; decide
  | zeroPageY => rw [outline_byte h]; decide
  | indirectPlusY => rw [outline_byte h]; decide
  | indirectX => rw [outline_byte h]; decide
  | indirectY => rw [outline_byte h]; decide

/-- An instruction that was decoded, and not cut off, at some position of some buffer. -/
def Whole (table : DenseTable) (i : Instruction) : Prop :=
  ∃ data address position, 0 ≤ position ∧
    instructionAt table data address position = .ok i ∧ ¬ i.Incomplete

/-- How a whole instruction comes by its bytes and its text. -/
structure Printed (table : DenseTable) (i : Instruction) (opcode : UInt8) : Prop where
  opcode_eq : i.opcode = opcode.toNat
  mode_eq : i.mode = (table.row opcode).record.mode
  raw_eq : i.rawBytes = opcode :: i.operandBytes
  length_eq : i.operandBytes.length = i.mode.operandSize
  printed : ∃ operand, operand? i.mode i.operandBytes (i.address + i.mode.length) = some operand ∧
    i.operand = operand.text

theorem Whole.printed {table : DenseTable} (ht : table.Parsed) {i : Instruction}
    (h : Whole table i) : ∃ opcode, Printed table i opcode := by
  obtain ⟨data, address, position, hpos, hdecode, hwhole⟩ := h
  obtain ⟨p, rfl⟩ := Int.eq_ofNat_of_zero_le hpos
  cases hd : data.toList.drop p with
  | nil =>
    have hend : (data.size : Int) ≤ p := by
      have := List.drop_eq_nil_iff.mp hd
      rw [Array.length_toList] at this
      exact_mod_cast this
    simp [instructionAt, hend] at hdecode
  | cons opcode rest =>
    have hlength := (ht.row_sound opcode).regular.length_eq
    rw [instructionAt_eq_first hd (ht.adequate.length_pos opcode)] at hdecode
    rcases first_cases hdecode with ⟨_, rfl⟩ | ⟨hroom, operand, hoperand, rfl⟩
    · exact absurd ⟨rfl, rfl, rfl⟩ hwhole
    · refine ⟨opcode, rfl, rfl, rfl, ?_, operand, ?_, rfl⟩
      · simp only [complete, List.length_take]
        unfold Mode.length at hlength
        omega
      · rw [hlength] at hoperand
        simpa [complete, hlength] using hoperand

theorem Printed.operandBytes {table : DenseTable} {i : Instruction} {opcode : UInt8}
    (h : Printed table i opcode) :
    operandBytes? i.mode i.address i.operand = some i.operandBytes := by
  obtain ⟨operand, hoperand, htext⟩ := h.printed
  rw [htext]
  exact operandBytes?_operand h.length_eq hoperand

theorem Printed.reassemble {table : DenseTable} {i : Instruction} {opcode : UInt8}
    (h : Printed table i opcode) :
    reassemble table i.opcode i.address i.operand = some i.rawBytes := by
  have hrow : table.rowAt i.opcode = .ok (table.row opcode) := by
    rw [h.opcode_eq]
    exact table.rowAt_toNat opcode
  simp only [Decode.reassemble, hrow, ← h.mode_eq, h.operandBytes, Option.map_some, h.raw_eq]
  simp [h.opcode_eq]

/-- With one opcode, at one address on the bus, bytes and texts determine each other. -/
theorem Printed.operand_eq_iff {table : DenseTable} {i j : Instruction} {opcode opcode' : UInt8}
    (hi : Printed table i opcode) (hj : Printed table j opcode') (hopcode : i.opcode = j.opcode)
    (haddress : i.address % 65536 = j.address % 65536) :
    i.operand = j.operand ↔ i.operandBytes = j.operandBytes := by
  obtain rfl : opcode = opcode' := by
    rw [hi.opcode_eq, hj.opcode_eq] at hopcode
    exact UInt8.toNat_inj.mp (by omega)
  have hmode : i.mode = j.mode := by rw [hi.mode_eq, hj.mode_eq]
  constructor
  · intro htext
    have hbytes := hi.operandBytes
    rw [operandBytes?_congr i.mode haddress, htext, hmode, hj.operandBytes] at hbytes
    exact (Option.some.inj hbytes).symm
  · intro hbytes
    obtain ⟨a, ha, hatext⟩ := hi.printed
    obtain ⟨b, hb, hbtext⟩ := hj.printed
    have hnext : (i.address + i.mode.length) % 65536 = (j.address + i.mode.length) % 65536 := by
      omega
    rw [operand?_congr i.mode i.operandBytes hnext, hbytes, hmode, hb] at ha
    rw [hatext, hbtext, Option.some.inj ha]

theorem Printed.mode_of_operand {table table' : DenseTable} {i j : Instruction}
    {opcode opcode' : UInt8} (hi : Printed table i opcode) (hj : Printed table' j opcode')
    (h : i.operand = j.operand) :
    i.mode = j.mode ∨ i.mode = .absolute ∧ j.mode = .relative ∨
      i.mode = .relative ∧ j.mode = .absolute := by
  obtain ⟨a, ha, hatext⟩ := hi.printed
  obtain ⟨b, hb, hbtext⟩ := hj.printed
  apply template_eq
  rw [← String.toList_inj, ← outline_operand ha, ← outline_operand hb, ← hatext, ← hbtext, h]

/-- The text of an operand tells its bytes. It tells the mode as well, except that the target of a
branch looks like an absolute address. -/
theorem operand_lossless :
    (∀ (table : DenseTable) (i : Instruction), table.Parsed → Whole table i →
      reassemble table i.opcode i.address i.operand = some i.rawBytes ∧
      operandBytes? i.mode i.address i.operand = some i.operandBytes ∧
      i.operandBytes.length = i.mode.operandSize) ∧
    (∀ (table : DenseTable) (i j : Instruction), table.Parsed → Whole table i → Whole table j →
      i.opcode = j.opcode → i.address % 65536 = j.address % 65536 →
      (i.operand = j.operand ↔ i.operandBytes = j.operandBytes)) ∧
    ∀ (table table' : DenseTable) (i j : Instruction), table.Parsed → table'.Parsed →
      Whole table i → Whole table' j → i.operand = j.operand →
      i.mode = j.mode ∨ i.mode = .absolute ∧ j.mode = .relative ∨
        i.mode = .relative ∧ j.mode = .absolute := by
  refine ⟨?_, ?_, ?_⟩
  · intro table i ht hi
    obtain ⟨opcode, hi⟩ := hi.printed ht
    exact ⟨hi.reassemble, hi.operandBytes, hi.length_eq⟩
  · intro table i j ht hi hj
    obtain ⟨_, hi⟩ := hi.printed ht
    obtain ⟨_, hj⟩ := hj.printed ht
    exact hi.operand_eq_iff hj
  · intro table table' i j ht ht' hi hj
    obtain ⟨_, hi⟩ := hi.printed ht
    obtain ⟨_, hj⟩ := hj.printed ht'
    exact hi.mode_of_operand hj

/-- A jump and a branch to one address. -/
theorem operand_lossless_target :
    let records := [Sample.jump (Sample.place 1), Sample.branch (Sample.place 2)]
    ∃ table i j, (DenseTable.build .refuse records).result = .ok table ∧
      Whole table i ∧ i.operand = "$1234" ∧ Whole table j ∧ j.operand = "$1234" ∧
      reassemble table 0x4C (-1) "$1234" = some [0x4C, 0x34, 0x12] ∧
      reassemble table 0xD0 0x1230 "$1234" = some [0xD0, 0x02] ∧
      (i.operand = i.operand ↔ i.operandBytes = i.operandBytes) ∧
      (i.mode = j.mode ∨ i.mode = .absolute ∧ j.mode = .relative ∨
        i.mode = .relative ∧ j.mode = .absolute) := by
  intro records
  have hread : (Table.ofText "table.txt" "Absolute|JMP|4C|3\nRelative|BNE|D0|2".toList).result =
      .ok records := rfl
  obtain ⟨table, htable, hparsed⟩ := DenseTable.exists_parsed .refuse hread (by decide +kernel)
  let i : Instruction :=
    { address := -1, opcode := 0x4C, mnemonic := "JMP", mode := .absolute
      operandBytes := [0x34, 0x12], operand := "$1234", size := 3, rawBytes := [0x4C, 0x34, 0x12] }
  let j : Instruction :=
    { address := 0x1230, opcode := 0xD0, mnemonic := "BNE", mode := .relative
      operandBytes := [0x02], operand := "$1234", size := 2, rawBytes := [0xD0, 0x02]
      comment := "+2" }
  have hdecode : ((DenseTable.build .refuse records).result.bind fun table =>
        instructionAt table #[0x4C, 0x34, 0x12] (-1) 0) = .ok i ∧
      ((DenseTable.build .refuse records).result.bind fun table =>
        instructionAt table #[0xEA, 0xD0, 0x02] 0x1230 1) = .ok j := by decide +kernel
  rw [htable] at hdecode
  have hi : Whole table i := ⟨_, _, 0, by decide, hdecode.1, fun h => absurd h.1 (by decide)⟩
  have hj : Whole table j := ⟨_, _, 1, by decide, hdecode.2, fun h => absurd h.1 (by decide)⟩
  exact ⟨table, i, j, htable, hi, rfl, hj, rfl, (operand_lossless.1 table i hparsed hi).1,
    (operand_lossless.1 table j hparsed hj).1,
    operand_lossless.2.1 table i i hparsed hi hi rfl rfl,
    operand_lossless.2.2 table table i j hparsed hparsed hi hj rfl⟩

end Cpu6502.Decode
