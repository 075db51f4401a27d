import Cpu6502.DenseTable

namespace Cpu6502

/-- The names that the declarations use. -/
structure Identifiers where
  mnemonicArray : String := "prettyOpcodeName"
  mnemonicEnum : String := "PrettyOpcodeIndex"
  /-- Follows a mnemonic in the name of its enumerator. -/
  enumeratorSuffix : String := "_Pretty"
  modeEnum : String := "AddressingMode"
  /-- The type of an entry, and its constructor. -/
  entryType : String := "DisassemblerEntry"
  tableArray : String := "disassemblerTable"
  deriving DecidableEq, Repr, Inhabited

namespace Identifiers

def mnemonicEnumerator (ids : Identifiers) (mnemonic : String) : String :=
  mnemonic ++ ids.enumeratorSuffix

def modeEnumerator (ids : Identifiers) (mode : Mode) : String :=
  ids.modeEnum ++ "_" ++ mode.camelName

end Identifiers

namespace Declarations

def block (header body : String) : String := header ++ " \x7b\n" ++ body ++ "\n\x7d;\n"

/-- Every mnemonic of three characters has room for its terminator in an array of four. -/
def mnemonicArray (mnemonics : Mnemonics) (ids : Identifiers) : String :=
  block ("const char " ++ ids.mnemonicArray ++ "[][4] =")
    (",".intercalate (mnemonics.names.map (fun name => "\"" ++ name ++ "\"")))

def enumeratorLine (ids : Identifiers) (item : String × Nat) : String :=
  ids.mnemonicEnumerator item.1 ++ " = " ++ Text.decimal item.2

def mnemonicEnum (mnemonics : Mnemonics) (ids : Identifiers) : String :=
  block ("enum " ++ ids.mnemonicEnum)
    (",\n".intercalate (mnemonics.items.map (enumeratorLine ids)))

def modeEnum (ids : Identifiers) : String :=
  block ("enum " ++ ids.modeEnum) (",\n".intercalate (Mode.all.map ids.modeEnumerator))

def entry (ids : Identifiers) (row : Row) : String :=
  ids.entryType ++ "(0x" ++ Text.lowerHex row.record.opcode ++ ", " ++
    ids.mnemonicEnumerator row.record.mnemonic ++ ", " ++ Text.decimal row.record.length ++ ", " ++
    ids.modeEnumerator row.record.mode ++ ")"

def tableArray (table : DenseTable) (ids : Identifiers) : String :=
  block (ids.entryType ++ " " ++ ids.tableArray ++ "[256] =")
    (",\n".intercalate (table.rows.toList.map (entry ids)))

/-- The four blocks, with an empty line between two of them. -/
def all (table : DenseTable) (ids : Identifiers) : String :=
  "\n".intercalate
    [mnemonicArray table.mnemonics ids, mnemonicEnum table.mnemonics ids, modeEnum ids,
      tableArray table ids]

end Declarations

end Cpu6502
