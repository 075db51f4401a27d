import Cpu6502.Text.Blank

namespace Cpu6502

/-- What stands between two bars of a line, without the blanks around it. -/
structure Field where
  text : List Char
  /-- Counted from one. For a field of blanks alone it is the column after them. -/
  column : Nat
  deriving DecidableEq, Repr

namespace Field

def separator : Char := '|'

/-- The field in a segment of the line that starts after `start` characters. -/
def ofSegment (start : Nat) (segment : List Char) : Field :=
  { text := Text.trim segment
    column := start + (segment.takeWhile Text.isBlank).length + 1 }

def locate (start : Nat) : List (List Char) → List Field
  | [] => []
  | segment :: rest => ofSegment start segment :: locate (start + segment.length + 1) rest

def split (line : List Char) : List Field := locate 0 (line.splitOn separator)

end Field

end Cpu6502
