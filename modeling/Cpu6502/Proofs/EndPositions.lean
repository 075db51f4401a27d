import Cpu6502.Proofs.ParsedTable
import Cpu6502.Proofs.SweepRun

namespace Cpu6502

namespace Position

variable {α : Type} {items : Array α} {position : Int}

theorem boundary_fromEnd {size : Nat} {p : Int} (hpos : 0 ≤ p) (hlt : p < size) :
    boundary size (p - size) = boundary size p := by
  unfold boundary
  rw [if_neg (by omega), if_pos hpos]
  omega

theorem get?_fromEnd {p : Nat} (hlt : p < items.size) :
    get? items (p - items.size) = items[p]? := by
  unfold get?
  rw [if_neg (by omega), if_pos (by omega), Int.sub_add_cancel, Int.toNat_natCast]

theorem slice_fromEnd {p : Int} (hpos : 0 ≤ p) (hlt : p < items.size) (stop : Int) :
    slice items (p - items.size) stop = slice items p stop := by
  unfold slice
  rw [boundary_fromEnd hpos hlt]

/-- A slice that starts at a position from the end and stops at one from the start is too short by
the size of the sequence. -/
theorem length_slice_overEnd {p : Int} {n : Int} (hpos : 0 ≤ p) (hlt : p < items.size)
    (hover : items.size ≤ p + n ∧ p + n ≤ 2 * items.size) :
    (slice items (p - items.size) (p - items.size + n)).length = (n - items.size).toNat := by
  rw [slice_fromEnd hpos hlt]
  simp only [slice, Array.length_toList, Array.size_extract, boundary]
  rw [if_pos hpos, if_pos (by omega)]
  omega

/-- What stands at a position has a place counted from the start. -/
theorem get?_eq_some {item : α} (h : get? items position = some item) :
    ∃ p : Nat, items[p]? = some item ∧ (position = p ∨ position = p - items.size) := by
  unfold get? at h
  split at h
  · exact ⟨_, h, .inl (by omega)⟩
  · split at h
    · exact ⟨_, h, .inr (by omega)⟩
    · cases h

end Position

namespace Decode

open Position Sweep

/-- An instruction shows bytes of the buffer, and its opcode is the first of them. -/
structure Backed (data : Array UInt8) (i : Instruction) : Prop where
  raw_infix : i.rawBytes <:+: data.toList
  size_eq : i.size = i.rawBytes.length
  opcode_first : ∃ opcode rest, i.rawBytes = opcode :: rest ∧ i.opcode = opcode.toNat

theorem Backed.of_reads {data : Array UInt8} {p : Nat} {address : Int} {i : Instruction}
    (h : Reads (data.toList.drop p) address i) : Backed data i :=
  ⟨h.raw_start.isInfix.trans (List.drop_suffix p data.toList).isInfix, h.size_eq, h.opcode_eq⟩

theorem first_row {table : DenseTable} {address : Int} {opcode : UInt8} {rest : List UInt8}
    {i : Instruction} (h : first table address opcode rest = .ok i) :
    i.opcode = opcode.toNat ∧ i.mode = (table.row opcode).record.mode := by
  rcases first_cases h with ⟨_, rfl⟩ | ⟨_, _, _, rfl⟩
  · exact ⟨rfl, rfl⟩
  · exact ⟨rfl, rfl⟩

section FromEnd

variable {table : DenseTable} {data : Array UInt8} {address : Int} {p : Nat} {opcode : UInt8}
  {i : Instruction}

/-- At a position from the start the bytes are read from there on. -/
theorem instructionAt_reads (hd : data[p]? = some opcode)
    (hpos : 1 ≤ (table.row opcode).record.length)
    (h : instructionAt table data address p = .ok i) :
    Reads (data.toList.drop p) address i ∧ i.opcode = opcode.toNat ∧
      i.mode = (table.row opcode).record.mode := by
  have hdrop := drop_of_getElem? hd
  rw [instructionAt_eq_first hdrop hpos] at h
  exact ⟨hdrop ▸ first_reads hpos h, first_row h⟩

/-- Positions from the start and from the end are alike for an instruction that ends before the
buffer does, or that the buffer is too short for even from its start. -/
theorem instructionAt_fromEnd (hd : data[p]? = some opcode)
    (hpos : 1 ≤ (table.row opcode).record.length)
    (hside : p + (table.row opcode).record.length < data.size ∨
      2 * data.size < p + (table.row opcode).record.length) :
    instructionAt table data address (p - data.size) = instructionAt table data address p := by
  have hlt := (Array.getElem?_eq_some_iff.mp hd).1
  have hget : get? data (p : Int) = some opcode := by simpa [get?] using hd
  have hfirst : ¬ (data.size : Int) ≤ p - data.size := by omega
  have hstart : ¬ (data.size : Int) ≤ p := by omega
  simp only [instructionAt, get?_fromEnd hlt, hd, hget,
    slice_fromEnd (Int.natCast_nonneg p) (Int.ofNat_lt.mpr hlt), if_neg hfirst, if_neg hstart]
  rcases hside with hends | hcut
  · have hstop : slice data p (p - data.size + (table.row opcode).record.length) =
        slice data p (p + (table.row opcode).record.length) := by
      have hend : (p : Int) - data.size + (table.row opcode).record.length =
          p + (table.row opcode).record.length - data.size := by omega
      unfold slice
      rw [hend, boundary_fromEnd (by omega) hends]
    rw [if_neg (by omega), if_neg (by omega), hstop]
  · rw [if_pos (by omega), if_pos (by omega)]

/-- An instruction that goes on up to the end of the buffer lacks bytes. Only one without an operand
is decoded all the same, and it lacks its opcode. -/
theorem instructionAt_overEnd (hd : data[p]? = some opcode)
    (hlength : (table.row opcode).record.length = (table.row opcode).record.mode.length)
    (hover : data.size ≤ p + (table.row opcode).record.length ∧
      p + (table.row opcode).record.length ≤ 2 * data.size)
    (h : instructionAt table data address (p - data.size) = .ok i) :
    p + 1 = data.size ∧ i.opcode = opcode.toNat ∧ i.mode.operandSize = 0 ∧ i.rawBytes = [] ∧
      i.size = 1 := by
  have hlt := (Array.getElem?_eq_some_iff.mp hd).1
  have hfirst : ¬ (data.size : Int) ≤ p - data.size := by omega
  have hroom : ¬ (data.size : Int) < p - data.size + (table.row opcode).record.length := by omega
  have hbytes := length_slice_overEnd (Int.natCast_nonneg p) (Int.ofNat_lt.mpr hlt) hover
  simp only [instructionAt, get?_fromEnd hlt, hd, if_neg hfirst, if_neg hroom] at h
  generalize slice data (p - data.size) (p - data.size + (table.row opcode).record.length) = bytes
    at h hbytes
  cases hoperand : operand? (table.row opcode).record.mode bytes.tail
      (address + (table.row opcode).record.length) with
  | none =>
    rw [hoperand] at h
    cases h
  | some operand =>
    have henough : (table.row opcode).record.mode.operandSize ≤ bytes.tail.length := by
      rw [← Nat.not_lt, ← operand?_eq_none_iff (address + (table.row opcode).record.length),
        hoperand]
      exact Option.some_ne_none operand
    unfold Mode.length at hlength
    rw [List.length_tail] at henough
    have hnone : bytes = [] := List.length_eq_zero_iff.mp (by omega)
    rw [hoperand] at h
    cases h
    exact ⟨by omega, rfl, by dsimp only; omega, hnone, by dsimp only; omega⟩

end FromEnd

theorem get?_of_instructionAt {table : DenseTable} {data : Array UInt8} {address position : Int}
    {i : Instruction} (h : instructionAt table data address position = .ok i) :
    ∃ opcode, get? data position = some opcode := by
  unfold instructionAt at h
  split at h
  · cases h
  · split at h
    · cases h
    · exact ⟨_, by assumption⟩

/-- Every instruction is backed by bytes of the buffer, except for one without an operand at the
last position from the end, which shows none. -/
theorem instructionAt_backed {table : DenseTable} (ht : table.Parsed) {data : Array UInt8}
    {address position : Int} {i : Instruction}
    (h : instructionAt table data address position = .ok i) :
    ∃ (p : Nat) (opcode : UInt8), data[p]? = some opcode ∧
      (position = p ∨ position = p - data.size) ∧ i.opcode = opcode.toNat ∧
      (Backed data i ↔ ¬ (position = -1 ∧ i.mode.operandSize = 0)) ∧
      (Backed data i → i.rawBytes <+: data.toList.drop p) ∧
      (¬ Backed data i → i.rawBytes = [] ∧ i.size = 1) := by
  obtain ⟨opcode, hget⟩ := get?_of_instructionAt h
  obtain ⟨p, hd, hposition⟩ := get?_eq_some hget
  have hlt := (Array.getElem?_eq_some_iff.mp hd).1
  have hpos := ht.adequate.length_pos opcode
  have hlength := (ht.row_sound opcode).regular.length_eq
  refine ⟨p, opcode, hd, hposition, ?_⟩
  have hside : (instructionAt table data address p = .ok i ∧
        ¬ (position = -1 ∧ (table.row opcode).record.length = 1)) ∨
      position = p - data.size ∧ data.size ≤ p + (table.row opcode).record.length ∧
        p + (table.row opcode).record.length ≤ 2 * data.size := by
    rcases hposition with rfl | rfl
    · exact .inl ⟨h, by omega⟩
    · by_cases hover : data.size ≤ p + (table.row opcode).record.length ∧
          p + (table.row opcode).record.length ≤ 2 * data.size
      · exact .inr ⟨rfl, hover⟩
      · rw [instructionAt_fromEnd hd hpos (by omega)] at h
        exact .inl ⟨h, by omega⟩
  rcases hside with ⟨hstart, hother⟩ | ⟨rfl, hover⟩
  · obtain ⟨hreads, hopcode, hmode⟩ := instructionAt_reads hd hpos hstart
    have hbacked : Backed data i := .of_reads hreads
    have hnotLast : ¬ (position = -1 ∧ i.mode.operandSize = 0) := by
      rw [hlength, ← hmode] at hother
      unfold Mode.length at hother
      omega
    exact ⟨hopcode, iff_of_true hbacked hnotLast, fun _ => hreads.raw_start,
      fun hnone => absurd hbacked hnone⟩
  · obtain ⟨hlast, hopcode, hoperand, hraw, hsize⟩ := instructionAt_overEnd hd hlength hover h
    have hbare : ¬ Backed data i := fun hbacked => by
      obtain ⟨_, _, hfirst, _⟩ := hbacked.opcode_first
      rw [hraw] at hfirst
      cases hfirst
    have hposition : (p : Int) - data.size = -1 := by omega
    exact ⟨hopcode, iff_of_false hbare (not_not_intro ⟨hposition, hoperand⟩),
      fun hbacked => absurd hbacked hbare, fun _ => ⟨hraw, hsize⟩⟩

/-- A branch three bytes from the end of the buffer. -/
theorem instructionAt_backed_branch :
    ∃ table i, (DenseTable.build .refuse Sample.branchOnly).result = .ok table ∧ table.Parsed ∧
      instructionAt table #[0xD0, 0xFE, 0xEA] 0xC000 (-3) = .ok i ∧ i.mode = .relative ∧
      Backed #[0xD0, 0xFE, 0xEA] i := by
  obtain ⟨table, htable, hparsed⟩ := Sample.exists_branch
  have hmode : ((DenseTable.build .refuse Sample.branchOnly).result.bind fun table =>
      (instructionAt table #[0xD0, 0xFE, 0xEA] 0xC000 (-3)).map Instruction.mode) =
        .ok .relative := by decide +kernel
  obtain ⟨i, hdecode, hrelative⟩ := DenseTable.exists_of_build htable hmode
  obtain ⟨_, _, _, _, _, hbacked, _⟩ := instructionAt_backed hparsed hdecode
  exact ⟨table, i, htable, hparsed, hdecode, hrelative, hbacked.mpr (by simp)⟩

/-- An instruction of one byte that shows none. -/
theorem instructionAt_bare :
    let idle : Record := Sample.idle (some { filename := "<input>", line := 1 })
    let i : Instruction :=
      { address := 0, opcode := 0xEA, mnemonic := "NOP", mode := .implied, operandBytes := []
        operand := "", size := 1, rawBytes := [] }
    ∃ table, (DenseTable.build .refuse [idle]).result = .ok table ∧ table.Parsed ∧
      instructionAt table #[0xEA] 0 (-1) = .ok i ∧ ¬ Backed #[0xEA] i := by
  intro idle i
  have hread : (Table.ofText "<input>" "Implied|NOP|EA|1".toList).result = .ok [idle] := rfl
  obtain ⟨table, htable, hparsed⟩ := DenseTable.exists_parsed .refuse hread (by decide +kernel)
  have hdecode : ((DenseTable.build .refuse [idle]).result.bind fun table =>
      instructionAt table #[0xEA] 0 (-1)) = .ok i := by decide +kernel
  rw [htable] at hdecode
  refine ⟨table, htable, hparsed, hdecode, fun hbacked => ?_⟩
  obtain ⟨_, _, hfirst, _⟩ := hbacked.opcode_first
  cases hfirst

end Decode

end Cpu6502
