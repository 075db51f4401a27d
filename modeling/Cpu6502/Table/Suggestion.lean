import Cpu6502.Mode
import Cpu6502.Text.EditDistance

namespace Cpu6502.Suggestion

/-- Lower case as far as it can bring a text closer to a mode label. Labels are ASCII, and only two
characters outside ASCII have lower case in it: the Kelvin sign, and the dotted capital I, which
becomes an `i` and a combining dot. All others keep their number and match no label either way. -/
def lowerChar (c : Char) : List Char :=
  if c = '\u0130' then ['i', '\u0307']
  else if c = '\u212a' then ['k']
  else [c.toLower]

def lower (label : String) : List Char := label.toList.flatMap lowerChar

/-- How far apart two labels are, whatever their case. -/
def distance (a b : String) : Nat := Text.editDistance (lower a) (lower b)

/-- Two edits are as many as a typing error makes. Lengths that differ by more need no table of
distances. -/
def isNear (label candidate : String) : Bool :=
  lower candidate == lower label ||
    (candidate.length ≤ label.length + 2 && label.length ≤ candidate.length + 2 &&
      distance label candidate ≤ 2)

/-- At most three, in the order of the modes. -/
def forLabel (label : String) : List String := (Mode.labels.filter (isNear label)).take 3

end Cpu6502.Suggestion
