import Cpu6502.Text.Numeral

namespace Cpu6502.Address

/-- Hexadecimal after `0x` or `$`, and otherwise decimal. -/
def read (text : String) : Option Int :=
  match text.toList with
  | '0' :: x :: rest =>
    if x = 'x' ∨ x = 'X' then Text.readHex ('0' :: x :: rest)
    else Text.readDecimal ('0' :: x :: rest)
  | '$' :: digits => Text.readHex digits
  | cs => Text.readDecimal cs

/-- The address bus has 16 bits. -/
def inRange (address : Int) : Bool := 0 ≤ address && address ≤ 0xFFFF

end Cpu6502.Address
