namespace Cpu6502.Text

/-- White space in the sense of Unicode, together with the four separators U+001C to U+001F. -/
def isBlank (c : Char) : Bool :=
  let n := c.toNat
  (0x09 ≤ n && n ≤ 0x0D) || (0x1C ≤ n && n ≤ 0x20) || n == 0x85 || n == 0xA0 || n == 0x1680 ||
    (0x2000 ≤ n && n ≤ 0x200A) || n == 0x2028 || n == 0x2029 || n == 0x202F || n == 0x205F ||
    n == 0x3000

def trimLeft (cs : List Char) : List Char := cs.dropWhile isBlank

def trimRight (cs : List Char) : List Char := (cs.reverse.dropWhile isBlank).reverse

def trim (cs : List Char) : List Char := trimRight (trimLeft cs)

example : isBlank '\u00a0' = true ∧ isBlank '\u200b' = false ∧ isBlank '\x1f' = true := by decide
example : trim [' ', 'a', ' ', 'b', '\t'] = ['a', ' ', 'b'] := by decide

end Cpu6502.Text
