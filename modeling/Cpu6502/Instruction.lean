import Cpu6502.Mode
import Cpu6502.Text.Blank
import Cpu6502.Text.Digit

namespace Cpu6502

structure Instruction where
  address : Int
  opcode : Int
  mnemonic : String
  mode : Mode
  operandBytes : List UInt8
  operand : String
  size : Int
  rawBytes : List UInt8
  comment : String := ""
  deriving DecidableEq, Repr, Inhabited

namespace Instruction

def addressText (i : Instruction) : String := "$" ++ Text.upperHex 4 i.address

def opcodeText (i : Instruction) : String := "$" ++ Text.upperHex 2 i.opcode

def byteText (b : UInt8) : String := Text.upperHex 2 b.toNat

/-- The bytes, with room for three. -/
def byteColumn (i : Instruction) : String :=
  " ".intercalate (i.rawBytes.map byteText) ++
    .ofList (List.replicate (3 * (3 - i.rawBytes.length)) ' ')

/-- Bytes, mnemonic and operand. -/
def text (i : Instruction) : String :=
  .ofList (Text.trimRight (i.byteColumn ++ "  " ++ i.mnemonic ++ " " ++ i.operand).toList)

/-- The column at which comments start, unless the instruction is longer. -/
def commentColumn : Nat := 32

def listingLine (i : Instruction) : String :=
  let line := i.addressText ++ ": " ++ i.text
  if i.comment.isEmpty then line
  else line ++ .ofList (List.replicate (commentColumn - line.length) ' ') ++ " ; " ++ i.comment

end Instruction

end Cpu6502
