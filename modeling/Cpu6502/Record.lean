import Cpu6502.Location
import Cpu6502.Mode
import Cpu6502.Text.Quoted

namespace Cpu6502

/-- Nothing here is checked: a record made by hand may hold an opcode that is no byte, or a length
that its mode does not have. -/
structure Record where
  opcode : Int
  mnemonic : String
  mode : Mode
  length : Int
  location : Option Location := none
  deriving DecidableEq, Repr, Inhabited

/-- The mnemonic of opcode bytes without an instruction. -/
def unknownMnemonic : String := "UNK"

namespace Record

/-- What stands in for an opcode that no record declares. -/
def unknown (opcode : Int) : Record :=
  { opcode := opcode, mnemonic := unknownMnemonic, mode := .implied, length := 1 }

/-- Equality of what two records declare, wherever they do it. -/
def same (a b : Record) : Bool :=
  a.opcode == b.opcode && a.mnemonic == b.mnemonic && a.mode == b.mode && a.length == b.length

def describe (r : Record) : String :=
  "InstructionRecord(opcode=$" ++ Text.upperHex 2 r.opcode ++ ", mnemonic=" ++
    Text.quoted r.mnemonic ++ ", mode=" ++ r.mode.constantName ++ ", length=" ++
    Text.decimal r.length ++ ")"

end Record

end Cpu6502
