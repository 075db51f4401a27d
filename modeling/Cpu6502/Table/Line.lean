import Cpu6502.Record
import Cpu6502.Table.Field
import Cpu6502.Table.Suggestion
import Cpu6502.TableFault
import Cpu6502.Text.Line
import Cpu6502.Text.Numeral

namespace Cpu6502

/-- A cause, and the column it is found at. -/
structure Complaint where
  cause : TableFault.Cause
  column : Nat

namespace Line

def readMode (f : Field) : Except Complaint Mode :=
  let label := String.ofList f.text
  match Mode.ofLabel? label with
  | some mode => .ok mode
  | none => .error ⟨.unknownMode label (Suggestion.forLabel label), f.column⟩

/-- One to three letters or digits of ASCII, a letter first. -/
def isMnemonic : List Char → Bool
  | [] => false
  | c :: rest => c.isAlpha && rest.all Char.isAlphanum && rest.length ≤ 2

def readMnemonic (f : Field) : Except Complaint String :=
  let text := String.ofList f.text
  if isMnemonic f.text then .ok text else .error ⟨.invalidMnemonic text, f.column⟩

/-- One or two hexadecimal digits. -/
def byteOfHex? : List Char → Option Nat
  | [c] => Text.digitValue? 16 c
  | [c, d] =>
    match Text.digitValue? 16 c, Text.digitValue? 16 d with
    | some high, some low => some (16 * high + low)
    | _, _ => none
  | _ => none

def readOpcode (f : Field) : Except Complaint Nat :=
  match byteOfHex? f.text with
  | some opcode => .ok opcode
  | none => .error ⟨.invalidOpcode (.ofList f.text), f.column⟩

def readLength (f : Field) : Except Complaint Int :=
  let refusal := .error ⟨.invalidLength (.ofList f.text), f.column⟩
  match Text.readDecimal f.text with
  | some length => if 1 ≤ length ∧ length ≤ 3 then .ok length else refusal
  | none => refusal

/-- The mode, the mnemonic, the opcode and the length that four fields declare. -/
def readFields (label mnemonic opcode length : Field) :
    Except Complaint (Mode × String × Nat × Int) := do
  let mode ← readMode label
  let name ← readMnemonic mnemonic
  let byte ← readOpcode opcode
  let size ← readLength length
  if size = mode.length then
    return (mode, name, byte, size)
  else
    throw ⟨.inconsistentLength name mode.label size mode.length, length.column⟩

end Line

/-- Reads a line of four fields: addressing mode, mnemonic, opcode byte, length. The first check
that fails is the one reported. The location of a record is the start of the line. -/
def Record.ofLine (filename : String) (number : Int) (line : List Char) :
    Except TableFault Record :=
  let source := Text.chomp line
  let place (column : Nat) : Location := { filename := filename, line := number, column := column }
  let refuse (complaint : Complaint) : TableFault :=
    { cause := complaint.cause
      location := some (place complaint.column)
      sourceLine := some (.ofList source) }
  match Field.split source with
  | [label, mnemonic, opcode, length] =>
    match Line.readFields label mnemonic opcode length with
    | .ok (mode, name, byte, size) =>
      .ok { opcode := byte, mnemonic := name, mode := mode, length := size, location := place 1 }
    | .error complaint => .error (refuse complaint)
  | fields => .error (refuse ⟨.fieldCount fields.length, 1⟩)

end Cpu6502
