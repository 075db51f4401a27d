import Cpu6502.Decode
import Mathlib.Data.List.Basic

namespace Cpu6502

namespace Position

theorem slice_ofNat (items : Array α) (p n : Nat) :
    slice items (p : Int) ((p : Int) + n) = (items.toList.drop p).take n := by
  have hn : ((p : Int) + n) = ((p + n : Nat) : Int) := by omega
  rw [hn]
  simp only [slice, boundary, Int.natCast_nonneg, ↓reduceIte, Int.toNat_natCast,
    Array.toList_extract, List.extract_eq_take_drop]
  by_cases hp : p ≤ items.size
  · rw [Nat.min_eq_left hp]
    apply List.take_eq_take_iff.mpr
    simp only [List.length_drop, Array.length_toList]
    omega
  · rw [List.drop_eq_nil_of_le (by simp; omega), List.drop_eq_nil_of_le (by simp; omega)]
    simp

theorem drop_of_getElem? {data : Array UInt8} {p : Nat} {opcode : UInt8}
    (h : data[p]? = some opcode) : data.toList.drop p = opcode :: data.toList.drop (p + 1) := by
  obtain ⟨hlt, hget⟩ := Array.getElem?_eq_some_iff.mp h
  rw [List.drop_eq_getElem_cons (by simpa using hlt), Array.getElem_toList, hget]

end Position

/-- What tells that the buffer ended within an instruction. -/
def Instruction.Incomplete (i : Instruction) : Prop :=
  i.operand = "???" ∧ i.operandBytes = [] ∧ i.comment = "incomplete instruction"

/-- Every row has room for the operand of its mode. -/
def DenseTable.Adequate (table : DenseTable) : Prop :=
  ∀ opcode, (table.row opcode).record.mode.length ≤ (table.row opcode).record.length

/-- Every row takes at least its opcode, so that a sweep moves on. -/
def DenseTable.Advancing (table : DenseTable) : Prop :=
  ∀ opcode, 1 ≤ (table.row opcode).record.length

theorem DenseTable.Adequate.length_pos {table : DenseTable} (h : table.Adequate) (opcode : UInt8) :
    1 ≤ (table.row opcode).record.length := by
  have := h opcode
  unfold Mode.length at this
  omega

namespace Decode

open Position

/-- An instruction that is whole. -/
def complete (address : Int) (opcode : UInt8) (record : Record) (operandBytes : List UInt8)
    (operand : Operand) : Instruction :=
  { address := address
    opcode := opcode.toNat
    mnemonic := record.mnemonic
    mode := record.mode
    operandBytes := operandBytes
    operand := operand.text
    size := record.length
    rawBytes := opcode :: operandBytes
    comment := operand.comment }

/-- Decodes the instruction that an opcode and the bytes after it start with. -/
def first (table : DenseTable) (address : Int) (opcode : UInt8) (rest : List UInt8) :
    Except Fault Instruction :=
  let record := (table.row opcode).record
  if rest.length + 1 < record.length then
    .ok (incomplete address opcode record (opcode :: rest))
  else
    let operandBytes := rest.take (record.length.toNat - 1)
    match operand? record.mode operandBytes (address + record.length) with
    | none => .error (.noSuchPosition record.length)
    | some operand => .ok (complete address opcode record operandBytes operand)

/-- Rows without a byte of their own are left out: their slices may end before they start. -/
theorem instructionAt_eq_first {table : DenseTable} {data : Array UInt8} {address : Int} {p : Nat}
    {opcode : UInt8} {rest : List UInt8} (hd : data.toList.drop p = opcode :: rest)
    (hlen : 1 ≤ (table.row opcode).record.length) :
    instructionAt table data address p = first table address opcode rest := by
  have hsize : data.size = p + rest.length + 1 := by
    have := congrArg List.length hd
    simp only [List.length_drop, Array.length_toList, List.length_cons] at this
    omega
  have hopcode : get? data (p : Int) = some opcode := by
    have hx : data.toList[p]? = some opcode := by
      rw [← List.head?_drop, hd, List.head?_cons]
    simpa [get?] using hx
  obtain ⟨n, hn⟩ : ∃ n : Nat, (table.row opcode).record.length = n + 1 :=
    ⟨((table.row opcode).record.length - 1).toNat, by omega⟩
  have hall : slice data p data.size = opcode :: rest := by
    have hend : (data.size : Int) = (p : Int) + (rest.length + 1 : Nat) := by omega
    rw [hend, slice_ofNat, hd, List.take_of_length_le (by simp)]
  have hslice : slice data p (p + (n + 1)) = opcode :: rest.take n := by
    have := slice_ofNat data p (n + 1)
    rw [hd, List.take_succ_cons] at this
    exact_mod_cast this
  have hcut : (data.size : Int) < p + (n + 1) ↔ (rest.length : Int) + 1 < n + 1 := by omega
  simp only [instructionAt, first, hopcode, hn, hall, hslice, hcut]
  rw [if_neg (by omega)]
  split
  · rfl
  · rename_i hroom
    have hlength : (rest.take n).length = n := by
      rw [List.length_take]
      omega
    simp only [show ((n : Int) + 1).toNat - 1 = n by omega, List.tail_cons, List.length_cons,
      hlength]
    cases operand? (table.row opcode).record.mode (rest.take n) (address + (n + 1)) with
    | none => simp
    | some operand => simp only [complete, hn]

/-- An operand is refused only for bytes that are missing. -/
theorem operand?_eq_none_iff {mode : Mode} {bytes : List UInt8} (next : Int) :
    operand? mode bytes next = none ↔ bytes.length < mode.operandSize := by
  cases mode
  all_goals match bytes with
    | [] => simp [operand?, Mode.operandSize, word, byte, branch, wordOf?, byteOf?]
    | [_] => simp [operand?, Mode.operandSize, word, byte, branch, wordOf?, byteOf?]
    | _ :: _ :: _ => simp [operand?, Mode.operandSize, word, byte, branch, wordOf?, byteOf?]

/-- No operand reads like the mark of an incomplete instruction. -/
theorem operand_ne_mark {mode : Mode} {bytes : List UInt8} {next : Int} {operand : Operand}
    (h : operand? mode bytes next = some operand) : operand.text ≠ "???" := by
  have hhead : operand.text.toList.head? ≠ some '?' := by
    cases mode
    all_goals
      simp only [operand?, word, byte, branch, Option.map_eq_some_iff, Option.some.injEq] at h
    all_goals first
      | (subst h; simp)
      | (obtain ⟨_, _, rfl⟩ := h; simp)
  intro he
  rw [he] at hhead
  exact hhead rfl

/-- The two ways in which decoding the start of some bytes can end well. -/
theorem first_cases {table : DenseTable} {address : Int} {opcode : UInt8} {rest : List UInt8}
    {i : Instruction} (h : first table address opcode rest = .ok i) :
    (rest.length + 1 < (table.row opcode).record.length ∧
      i = incomplete address opcode (table.row opcode).record (opcode :: rest)) ∨
    ((table.row opcode).record.length ≤ rest.length + 1 ∧
      ∃ operand, operand? (table.row opcode).record.mode
          (rest.take ((table.row opcode).record.length.toNat - 1))
          (address + (table.row opcode).record.length) = some operand ∧
        i = complete address opcode (table.row opcode).record
          (rest.take ((table.row opcode).record.length.toNat - 1)) operand) := by
  simp only [first] at h
  split at h
  · rename_i hcut
    exact .inl ⟨hcut, (Except.ok.inj h).symm⟩
  · rename_i hroom
    split at h
    · cases h
    · rename_i operand hoperand
      exact .inr ⟨by omega, operand, hoperand, (Except.ok.inj h).symm⟩

theorem first_of_cut {table : DenseTable} {opcode : UInt8} {rest : List UInt8}
    (hcut : (rest.length : Int) + 1 < (table.row opcode).record.length) (address : Int) :
    first table address opcode rest =
      .ok (incomplete address opcode (table.row opcode).record (opcode :: rest)) := by
  simp only [first, if_pos hcut]

theorem first_of_operand {table : DenseTable} {address : Int} {opcode : UInt8} {rest : List UInt8}
    {operand : Operand} (hroom : (table.row opcode).record.length ≤ rest.length + 1)
    (h : operand? (table.row opcode).record.mode
        (rest.take ((table.row opcode).record.length.toNat - 1))
        (address + (table.row opcode).record.length) = some operand) :
    first table address opcode rest =
      .ok (complete address opcode (table.row opcode).record
        (rest.take ((table.row opcode).record.length.toNat - 1)) operand) := by
  have hcut : ¬ (rest.length : Int) + 1 < (table.row opcode).record.length := by omega
  simp only [first, if_neg hcut, h]

/-- The bytes of a row that the buffer has room for may be too few for the operand. Nothing else
keeps an instruction from being decoded. -/
theorem first_error_iff {table : DenseTable} {address : Int} {opcode : UInt8} {rest : List UInt8}
    {fault : Fault} (hpos : 1 ≤ (table.row opcode).record.length) :
    first table address opcode rest = .error fault ↔
      (table.row opcode).record.length ≤ rest.length + 1 ∧
        (table.row opcode).record.length < (table.row opcode).record.mode.length ∧
        fault = .noSuchPosition (table.row opcode).record.length := by
  simp only [first]
  split
  · rename_i hcut
    refine ⟨nofun, fun h => ?_⟩
    omega
  · rename_i hroom
    have hshort : (table.row opcode).record.length < (table.row opcode).record.mode.length ↔
        (rest.take ((table.row opcode).record.length.toNat - 1)).length <
          (table.row opcode).record.mode.operandSize := by
      rw [List.length_take]
      unfold Mode.length
      omega
    have hfits : (table.row opcode).record.length ≤ rest.length + 1 := by omega
    rw [hshort, ← operand?_eq_none_iff (address + (table.row opcode).record.length)]
    split
    · rename_i hnone
      simp only [hnone, hfits, true_and, Except.error.injEq]
      exact eq_comm
    · rename_i operand hoperand
      simp [hoperand]

theorem first_ok {table : DenseTable} (ht : table.Adequate) (address : Int) (opcode : UInt8)
    (rest : List UInt8) : ∃ i, first table address opcode rest = .ok i := by
  cases hfirst : first table address opcode rest with
  | ok i => exact ⟨i, rfl⟩
  | error fault =>
    obtain ⟨_, hshort, _⟩ := (first_error_iff (ht.length_pos opcode)).mp hfirst
    exact absurd (ht opcode) (Int.not_le.mpr hshort)

/-- With adequate rows every byte of a buffer starts an instruction. -/
theorem instructionAt_ok {table : DenseTable} (ht : table.Adequate) {data : Array UInt8}
    {position : Int} (hpos : 0 ≤ position) (hlt : position < data.size) (address : Int) :
    ∃ i, instructionAt table data address position = .ok i := by
  obtain ⟨p, rfl⟩ := Int.eq_ofNat_of_zero_le hpos
  cases hd : data.toList.drop p with
  | nil =>
    have := List.drop_eq_nil_iff.mp hd
    rw [Array.length_toList] at this
    omega
  | cons opcode rest =>
    rw [instructionAt_eq_first hd (ht.length_pos opcode)]
    exact first_ok ht address opcode rest

end Decode

end Cpu6502
