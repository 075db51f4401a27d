import Cpu6502.Text.Blank
import Cpu6502.Text.Digit
import Cpu6502.Text.DecimalDigit

namespace Cpu6502.Text

/-- The ASCII spelling of a character: digits of every script become `0` to `9`, blanks outside
ASCII become spaces, and all else stays. -/
def asciiForm (c : Char) : Char :=
  if c.toNat < 128 then c
  else if isBlank c then ' '
  else match decimalDigit? c with
    | some d => Nat.digitChar d
    | none => c

/-- Only the blanks of ASCII that move the carriage may stand around a numeral. The separators
U+001C to U+001F may not. -/
def isNumeralMargin (c : Char) : Bool := c == ' ' || (0x09 ≤ c.toNat && c.toNat ≤ 0x0D)

def trimNumeral (cs : List Char) : List Char :=
  ((cs.dropWhile isNumeralMargin).reverse.dropWhile isNumeralMargin).reverse

/-- Reads on after a digit. An underscore must have a digit after it. -/
def readDigitsFrom (base : Nat) (value : Nat) : List Char → Option Nat
  | [] => some value
  | '_' :: c :: rest =>
    match digitValue? base c with
    | some d => readDigitsFrom base (value * base + d) rest
    | none => none
  | c :: rest =>
    match digitValue? base c with
    | some d => readDigitsFrom base (value * base + d) rest
    | none => none

/-- Reads at least one digit, and underscores only between digits. -/
def readDigits (base : Nat) : List Char → Option Nat
  | [] => none
  | c :: rest => (digitValue? base c).bind (readDigitsFrom base · rest)

/-- The most digits that a decimal numeral may have. -/
def decimalDigitLimit : Nat := 4300

/-- Reads the digits of a decimal numeral. Leading zeros count towards the limit. -/
def readDecimalDigits (cs : List Char) : Option Nat :=
  if (cs.filter (· != '_')).length ≤ decimalDigitLimit then readDigits 10 cs else none

/-- Reads the digits of a hexadecimal numeral, after the prefix `0x` if there is one. One underscore
may follow the prefix. -/
def readHexDigits : List Char → Option Nat
  | '0' :: x :: rest =>
    if x == 'x' || x == 'X' then
      match rest with
      | '_' :: digits => readDigits 16 digits
      | digits => readDigits 16 digits
    else readDigits 16 ('0' :: x :: rest)
  | digits => readDigits 16 digits

/-- Reads an integer with margins and a sign, and the digits of any script as `magnitude` does. -/
def readSigned (magnitude : List Char → Option Nat) (text : List Char) : Option Int :=
  match trimNumeral (text.map asciiForm) with
  | '+' :: digits => (magnitude digits).map Int.ofNat
  | '-' :: digits => (magnitude digits).map (fun n => -Int.ofNat n)
  | digits => (magnitude digits).map Int.ofNat

def readDecimal (text : List Char) : Option Int := readSigned readDecimalDigits text

def readHex (text : List Char) : Option Int := readSigned readHexDigits text

example : readDecimal " +1_0\n".toList = some 10 ∧ readDecimal "1__0".toList = none ∧
    readDecimal "_1".toList = none ∧ readDecimal "1_".toList = none := by decide
example : readHex "-0x_fF".toList = some (-255) ∧ readHex "0x".toList = none := by decide

end Cpu6502.Text
