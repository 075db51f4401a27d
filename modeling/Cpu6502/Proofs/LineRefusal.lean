import Cpu6502.Proofs.FaultMessage
import Cpu6502.Proofs.FieldPlaces

namespace Cpu6502.Line

/-- What is checked of a line. -/
inductive Check where
  | fieldCount
  | label
  | mnemonic
  | opcode
  | length
  /-- The length is the one of the mode. -/
  | agreement
  deriving DecidableEq, Repr

/-- The texts of the fields of a line. -/
def texts (source : List Char) : List (List Char) := (source.splitOn '|').map Text.trim

namespace Check

/-- The order in which the checks are made. -/
def order : List Check := [fieldCount, label, mnemonic, opcode, length, agreement]

/-- The field that a check is about. The number of fields is not about one of them. -/
def field? : Check → Option Nat
  | fieldCount => none
  | label => some 0
  | mnemonic => some 1
  | opcode => some 2
  | length | agreement => some 3

/-- The kind of error that a check ends with. -/
def kind : Check → TableFault.Kind
  | fieldCount | mnemonic | length => .malformed
  | label => .unknownMode
  | opcode => .invalidOpcode
  | agreement => .inconsistentLength

end Check

section

variable {fields : List (List Char)} {f label name byte length : Field}

end

/-- The column that a check points at: the one at which its field starts, with the text of the field
there, or else the first of the line. -/
def Check.PointsAt (source : List Char) (column : Nat) (check : Check) : Prop :=
  match check.field? with
  | none => column = 1
  | some k => ∃ f : Field, f.column = column ∧ Field.Stands source k f ∧
      (texts source)[k]? = some f.text ∧ (source.drop (column - 1)).take f.text.length = f.text

/-- The first character of the text of the field is the one at the column. -/
theorem Check.PointsAt.head {source rest : List Char} {column k : Nat} {check : Check} {c : Char}
    (h : check.PointsAt source column) (hk : check.field? = some k)
    (htext : (texts source)[k]? = some (c :: rest)) : source[column - 1]? = some c := by
  simp only [PointsAt, hk] at h
  obtain ⟨f, rfl, _, hf, hslice⟩ := h
  have hhead := congrArg List.head? hslice
  rw [← Option.some.inj (htext.symm.trans hf), List.length_cons] at hhead
  rwa [List.head?_take, if_neg (by omega), List.head?_drop] at hhead

end Cpu6502.Line

namespace Cpu6502.Record

open Line TableFault

variable {filename : String} {number : Int} {line : List Char} {error : TableFault}

end Cpu6502.Record
