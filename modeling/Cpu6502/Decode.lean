import Cpu6502.DenseTable
import Cpu6502.Instruction
import Cpu6502.Position

namespace Cpu6502.Decode

open Position

/-- Words are little-endian. -/
def wordOf? : List UInt8 → Option Nat
  | low :: high :: _ => some (low.toNat + 256 * high.toNat)
  | _ => none

def byteOf? : List UInt8 → Option Nat
  | b :: _ => some b.toNat
  | [] => none

/-- A byte as a number in two's complement. -/
def displacement (value : Nat) : Int := if 128 ≤ value then value - 256 else value

def displacementText (d : Int) : String := (if 0 ≤ d then "+" else "") ++ Text.decimal d

structure Operand where
  text : String
  comment : String := ""

/-- The address that a branch goes to, from the instruction after it and in 16 bits. -/
def target (next : Int) (value : Nat) : Int := (next + displacement value) % 65536

def word (before : String) (after : String) (bytes : List UInt8) : Option Operand :=
  (wordOf? bytes).map fun w => { text := before ++ "$" ++ Text.upperHex 4 w ++ after }

def byte (before : String) (after : String) (bytes : List UInt8) : Option Operand :=
  (byteOf? bytes).map fun b => { text := before ++ "$" ++ Text.upperHex 2 b ++ after }

def branch (next : Int) (bytes : List UInt8) : Option Operand :=
  (byteOf? bytes).map fun b =>
    { text := "$" ++ Text.upperHex 4 (target next b)
      comment := displacementText (displacement b) }

/-- The operand of an instruction that the address `next` follows, if there are bytes enough. -/
def operand? (mode : Mode) (bytes : List UInt8) (next : Int) : Option Operand :=
  match mode with
  | .implied => some { text := "" }
  | .accumulator => some { text := "A" }
  | .absolute => word "" "" bytes
  | .absoluteX => word "" ",X" bytes
  | .absoluteY => word "" ",Y" bytes
  | .indirect => word "(" ")" bytes
  | .relative => branch next bytes
  | .immediate => byte "#" "" bytes
  | .zeroPage => byte "" "" bytes
  | .zeroPageX => byte "" ",X" bytes
  | .zeroPageY => byte "" ",Y" bytes
  | .indirectPlusY => byte "(" "),Y" bytes
  | .indirectX => byte "(" ",X)" bytes
  | .indirectY => byte "(" ",Y)" bytes

/-- An instruction of which the buffer holds the start only. -/
def incomplete (address : Int) (opcode : UInt8) (record : Record) (bytes : List UInt8) :
    Instruction :=
  { address := address
    opcode := opcode.toNat
    mnemonic := record.mnemonic
    mode := record.mode
    operandBytes := []
    operand := "???"
    size := bytes.length
    rawBytes := bytes
    comment := "incomplete instruction" }

/-- Decodes the instruction at a position of the buffer, as if it stood at an address. -/
def instructionAt (table : DenseTable) (data : Array UInt8) (address position : Int) :
    Except Fault Instruction :=
  if data.size ≤ position then .error (.offsetBeyondData position data.size)
  else
    match get? data position with
    | none => .error (.noSuchPosition position)
    | some opcode =>
      let record := (table.row opcode).record
      let size := record.length
      if data.size < position + size then
        .ok (incomplete address opcode record (slice data position data.size))
      else
        let bytes := slice data position (position + size)
        match operand? record.mode bytes.tail (address + size) with
        | none => .error (.noSuchPosition bytes.length)
        | some operand =>
          .ok { address := address
                opcode := opcode.toNat
                mnemonic := record.mnemonic
                mode := record.mode
                operandBytes := bytes.tail
                operand := operand.text
                size := size
                rawBytes := bytes
                comment := operand.comment }

end Cpu6502.Decode
