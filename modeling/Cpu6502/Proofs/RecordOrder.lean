import Cpu6502.Proofs.DeclarationReadBack
import Cpu6502.Proofs.DenseRows
import Cpu6502.Proofs.MnemonicOrder
import Mathlib.Data.List.FinRange
import Mathlib.Data.List.Sort

namespace Cpu6502

open OpcodeIndex

namespace Record

/-- A record without the place where it stands. -/
def unplaced (r : Record) : Record := { r with location := none }

@[simp]
theorem opcode_unplaced (r : Record) : r.unplaced.opcode = r.opcode := rfl

@[simp]
theorem mnemonic_unplaced (r : Record) : r.unplaced.mnemonic = r.mnemonic := rfl

theorem same_iff {a b : Record} : a.same b = true ↔ a.unplaced = b.unplaced := by
  simp [same, unplaced, and_assoc]

end Record

/-- Each opcode has the same records in the same order. -/
def Agree (records others : List Record) : Prop :=
  ∀ opcode, (allFor records opcode).map Record.unplaced = (allFor others opcode).map Record.unplaced

variable {records others : List Record}

/-- The positions of the records for an opcode. -/
def positions (records : List Record) (opcode : Int) : List (Fin records.length) :=
  (List.finRange records.length).filter fun i => (records.get i).opcode == opcode

namespace Agree

theorem symm (h : Agree records others) : Agree others records := fun opcode => (h opcode).symm

theorem last?_eq (h : Agree records others) (opcode : Int) :
    (last? records opcode).map Record.unplaced = (last? others opcode).map Record.unplaced := by
  rw [last?, last?, ← List.getLast?_map, ← List.getLast?_map, h opcode]

theorem nodup_iff (h : Agree records others) :
    (records.map Record.opcode).Nodup ↔ (others.map Record.opcode).Nodup := by
  have hlength (opcode : Int) : (allFor records opcode).length = (allFor others opcode).length := by
    rw [← List.length_map Record.unplaced, h opcode, List.length_map]
  simp only [nodup_opcodes_iff, hlength]

end Agree

/-- Rows that differ at most in the place of their record. -/
structure Row.Same (row other : Row) : Prop where
  record_same : row.record.same other.record = true
  index_eq : row.mnemonicIndex = other.mnemonicIndex
  authored_eq : row.authored = other.authored

theorem Row.Declared.same (h : Agree records others) {mnemonics : Mnemonics} {opcode : Nat}
    {row other : Row} (hrow : Row.Declared mnemonics records opcode row)
    (hother : Row.Declared mnemonics others opcode other) : row.Same other := by
  have hrecord : row.record.unplaced = other.record.unplaced := by
    rw [hrow.record_eq, hother.record_eq, ← Option.getD_map Record.unplaced,
      ← Option.getD_map Record.unplaced, h.last?_eq]
  have hmnemonic : row.record.mnemonic = other.record.mnemonic := by
    simpa using congrArg Record.mnemonic hrecord
  refine ⟨Record.same_iff.mpr hrecord, ?_, ?_⟩
  · apply Option.some.inj
    rw [← hrow.index_eq, ← hother.index_eq, hmnemonic]
  · rw [hrow.authored_eq, hother.authored_eq, ← Option.isSome_map, h.last?_eq, Option.isSome_map]

namespace DenseTable

end DenseTable

end Cpu6502
