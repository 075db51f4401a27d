namespace Cpu6502.Text

/-- The characters that end a line on their own. -/
def isLineBreak (c : Char) : Bool :=
  let n := c.toNat
  (0x0A ≤ n && n ≤ 0x0D) || (0x1C ≤ n && n ≤ 0x1E) || n == 0x85 || n == 0x2028 || n == 0x2029

/-- Puts a character at the front of the first line, which is a new one if there is none. -/
def extendFirst (c : Char) : List (List Char) → List (List Char)
  | [] => [[c]]
  | line :: rest => (c :: line) :: rest

/-- Splits a text into lines, without their breaks. No empty line comes after a last break. -/
def lines : List Char → List (List Char)
  | [] => []
  | '\r' :: '\n' :: rest => [] :: lines rest
  | c :: rest => if isLineBreak c then [] :: lines rest else extendFirst c (lines rest)

/-- Removes every carriage return and line feed from the end of a line. -/
def chomp (line : List Char) : List Char :=
  (line.reverse.dropWhile (fun c => c == '\r' || c == '\n')).reverse

example : lines "a\r\nb\n\nc".toList = [['a'], ['b'], [], ['c']] := by decide
example : lines "\n".toList = [[]] ∧ lines [] = [] := by decide
example : chomp "a\n\r".toList = ['a'] ∧ chomp "a\x0c".toList = ['a', '\x0c'] := by decide

end Cpu6502.Text
