import Cpu6502.Text.Digit
import Cpu6502.Text.Printable

namespace Cpu6502.Text

/-- Single quotes, unless the text holds some and no double quote. -/
def quoteFor (cs : List Char) : Char := if '\'' ∈ cs ∧ '"' ∉ cs then '"' else '\''

/-- Lower-case hexadecimal with zeros up to a width. -/
def codeDigits (width : Nat) (n : Nat) : List Char :=
  let digits := Nat.toDigits 16 n
  List.replicate (width - digits.length) '0' ++ digits

def escapeChar (quote : Char) (c : Char) : List Char :=
  if c = '\\' ∨ c = quote then ['\\', c]
  else if c = '\n' then ['\\', 'n']
  else if c = '\r' then ['\\', 'r']
  else if c = '\t' then ['\\', 't']
  else if isPrintable c then [c]
  else if c.toNat < 0x100 then '\\' :: 'x' :: codeDigits 2 c.toNat
  else if c.toNat < 0x10000 then '\\' :: 'u' :: codeDigits 4 c.toNat
  else '\\' :: 'U' :: codeDigits 8 c.toNat

/-- What stands between the quotes is printable and tells every character apart. -/
def quoted (text : String) : String :=
  let quote := quoteFor text.toList
  .ofList (quote :: text.toList.flatMap (escapeChar quote) ++ [quote])

end Cpu6502.Text
