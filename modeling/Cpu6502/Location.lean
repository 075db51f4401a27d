import Cpu6502.Text.Digit

namespace Cpu6502

/-- Lines and columns count from one. -/
structure Location where
  filename : String
  line : Int
  column : Int := 1
  deriving DecidableEq, Repr, Inhabited

namespace Location

def text (place : Location) : String :=
  place.filename ++ ":" ++ Text.decimal place.line ++ ":" ++ Text.decimal place.column

end Location

end Cpu6502
