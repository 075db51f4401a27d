namespace Cpu6502.Text

/-- The value of a digit, of either case, if it is one in this base. -/
def digitValue? (base : Nat) (c : Char) : Option Nat :=
  let value? :=
    if '0' ≤ c ∧ c ≤ '9' then some (c.toNat - '0'.toNat)
    else if 'a' ≤ c ∧ c ≤ 'f' then some (c.toNat - 'a'.toNat + 10)
    else if 'A' ≤ c ∧ c ≤ 'F' then some (c.toNat - 'A'.toNat + 10)
    else none
  value?.filter (· < base)

/-- The sign that is written before the digits of an integer. -/
def signText (n : Int) : List Char := if n < 0 then ['-'] else []

/-- Lower-case hexadecimal, without padding. -/
def lowerHex (n : Int) : String :=
  .ofList (signText n ++ Nat.toDigits 16 n.natAbs)

/-- Upper-case hexadecimal with zeros after the sign up to a total width, in which the sign counts.
A wider number is written in full. -/
def upperHex (width : Nat) (n : Int) : String :=
  let sign := signText n
  let digits := (Nat.toDigits 16 n.natAbs).map Char.toUpper
  .ofList (sign ++ List.replicate (width - sign.length - digits.length) '0' ++ digits)

/-- Decimal, of any length. A limit on the digits that are printed, such as the one that numerals
have when they are read, is left out: only records made by hand hold numbers that come near it. -/
def decimal (n : Int) : String := .ofList (signText n ++ Nat.toDigits 10 n.natAbs)

example : upperHex 2 10 = "0A" ∧ upperHex 4 (-1) = "-001" ∧ upperHex 2 4096 = "1000" := by decide
example : lowerHex 255 = "ff" ∧ decimal (-120) = "-120" := by decide

end Cpu6502.Text
