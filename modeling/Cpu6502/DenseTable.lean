import Cpu6502.Mnemonics
import Cpu6502.OpcodeIndex

namespace Cpu6502

structure Row where
  record : Record
  mnemonicIndex : Nat
  /-- False for a row that stands in for an undeclared opcode. -/
  authored : Bool
  deriving DecidableEq, Repr, Inhabited

/-- One row for each opcode byte, whether a record declares it or not. -/
structure DenseTable where
  rows : Vector Row 256
  mnemonics : Mnemonics

namespace DenseTable

/-- Any 256 rows make a table, in any order. -/
def ofRows (rows : List Row) (mnemonics : Mnemonics) : Except Fault DenseTable :=
  if h : rows.length = 256 then
    .ok { rows := ⟨rows.toArray, by simpa using h⟩, mnemonics := mnemonics }
  else .error (.rowCount rows.length)

/-- The row of an opcode. Mnemonics that were numbered elsewhere may lack the one of the row. -/
def rowOf (mnemonics : Mnemonics) (index : List Record) (opcode : Nat) : Except Fault Row :=
  let found := OpcodeIndex.find? index opcode
  let record := found.getD (.unknown opcode)
  match mnemonics.indexOf? record.mnemonic with
  | some i => .ok { record := record, mnemonicIndex := i, authored := found.isSome }
  | none => .error (.unregistered record.mnemonic)

def unknownCount (table : DenseTable) : Nat := table.rows.toList.countP (fun row => !row.authored)

def authoredRows (table : DenseTable) : List Row := table.rows.toList.filter Row.authored

def sizesText (authored unknown names : Nat) : String :=
  Text.decimal authored ++ " authored, " ++ Text.decimal unknown ++ " unknown, " ++
    Text.decimal names ++ " mnemonics"

/-- Builds the table of some records, with indices in `mnemonics`. The log counts all declared
opcodes as authored, those that are no byte included. -/
def buildWith (mnemonics : Mnemonics) (policy : RepeatPolicy) (records : List Record) :
    Logged DenseTable := do
  let index ← OpcodeIndex.ofRecords policy records
  let rows ← .ofExcept ((List.range 256).mapM (rowOf mnemonics index))
  let table ← .ofExcept (ofRows rows mnemonics)
  .write .debug
    ("Built opcode table: " ++ sizesText index.length table.unknownCount mnemonics.size)
  return table

/-- Builds the table of some records, with indices in their own mnemonics. -/
def build (policy : RepeatPolicy) (records : List Record) : Logged DenseTable :=
  buildWith (.ofRecords records) policy records

def row (table : DenseTable) (byte : UInt8) : Row :=
  have : byte.toNat < 256 := byte.toNat_lt
  table.rows[byte.toNat]

def rowAt (table : DenseTable) (opcode : Int) : Except Fault Row :=
  if h : 0 ≤ opcode ∧ opcode < 256 then
    have : opcode.toNat < 256 := by omega
    .ok table.rows[opcode.toNat]
  else .error (.opcodeOutOfRange opcode)

theorem rowAt_toNat (table : DenseTable) (byte : UInt8) :
    table.rowAt byte.toNat = .ok (table.row byte) := by
  have := byte.toNat_lt
  exact dif_pos (by omega)

def describe (table : DenseTable) : String :=
  "DenseOpcodeTable(" ++
    sizesText (256 - table.unknownCount) table.unknownCount table.mnemonics.size ++ ")"

end DenseTable

end Cpu6502
