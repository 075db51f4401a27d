namespace Cpu6502.Text

def escape : Char := '\x1b'

def isParameter (c : Char) : Bool := 0x30 ≤ c.toNat && c.toNat ≤ 0x3F

def isIntermediate (c : Char) : Bool := 0x20 ≤ c.toNat && c.toNat ≤ 0x2F

def isFinal (c : Char) : Bool := 0x40 ≤ c.toNat && c.toNat ≤ 0x7E

/-- What follows a control sequence of which the escape character has been read, if it is one: a
bracket, then parameters, then intermediate characters, and one final character. -/
def afterControlSequence? : List Char → Option (List Char)
  | '[' :: cs =>
    match (cs.dropWhile isParameter).dropWhile isIntermediate with
    | c :: rest => if isFinal c then some rest else none
    | [] => none
  | _ => none

/-- A piece of text that an escape character stands before, as much of it as is shown. -/
def plainPiece (piece : List Char) : List Char :=
  (afterControlSequence? piece).getD (escape :: piece)

/-- A text without the control sequences for terminals, such as those that set colours. An escape
character that starts none stays. -/
def plain (cs : List Char) : List Char :=
  match cs.splitOn escape with
  | first :: pieces => first ++ pieces.flatMap plainPiece
  | [] => []

/-- A text without an escape character is shown whole. -/
theorem plain_eq_self {cs : List Char} (h : escape ∉ cs) : plain cs = cs := by
  simp [plain, List.splitOn_eq_singleton h]

example : plain "\x1b[31;1mred\x1b[0m".toList = "red".toList := by decide
example : plain "\x1b[2 qa\x1b]b\x1b[é".toList = "a\x1b]b\x1b[é".toList := by decide

end Cpu6502.Text
