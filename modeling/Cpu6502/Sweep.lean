import Cpu6502.Decode

namespace Cpu6502.Sweep

/-- Where to stop before the end of the buffer. An instruction that starts below the byte limit is
decoded whole. -/
structure Limits where
  count : Option Int := none
  maxBytes : Option Int := none
  deriving DecidableEq, Repr, Inhabited

def next (i : Instruction) : Int := (i.address + i.size) % 65536

/-- Decodes on from a position while `remaining` allows, for at most so many steps. The instructions
found so far come last to first. -/
def sweepFrom (table : DenseTable) (data : Array UInt8) (maxBytes : Option Int) :
    (steps : Nat) → (remaining : Option Nat) → (position address : Int) →
    (found : List Instruction) → Except Fault (List Instruction)
  | 0, _, _, _, _ => .error .endlessSweep
  | steps + 1, remaining, position, address, found =>
    if data.size ≤ position ∨ remaining = some 0 ∨ maxBytes.any (· ≤ position) then
      .ok found.reverse
    else
      match Decode.instructionAt table data address position with
      | .error fault => .error fault
      | .ok i =>
        sweepFrom table data maxBytes steps (remaining.map (· - 1)) (position + i.size) (next i)
          (i :: found)

/-- More steps than any sweep takes that ends. With a count the count is the bound. Without one, the
position is between the size of the buffer and its negative, and decides alone how the sweep goes
on, so a sweep that takes more steps than there are positions goes round for ever. -/
def stepBound (size : Nat) (count : Option Int) : Nat :=
  match count with
  | some n => n.toNat + 1
  | none => 2 * size + 2

def sweep (table : DenseTable) (data : Array UInt8) (start : Int) (limits : Limits) :
    Except Fault (List Instruction) :=
  sweepFrom table data limits.maxBytes (stepBound data.size limits.count)
    (limits.count.map Int.toNat) 0 start []

/-- A listing, one instruction a line. -/
def listing (instructions : List Instruction) : String :=
  "\n".intercalate (instructions.map Instruction.listingLine)

end Cpu6502.Sweep
