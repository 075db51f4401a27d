namespace Cpu6502.Text

/-- The entries of a row behind its first one, which is `left`. The row before has an entry more
than the text has characters. -/
def fillRow (c : Char) : List Char → List Nat → Nat → List Nat
  | d :: ds, diagonal :: above :: before, left =>
    let here := if c = d then diagonal else 1 + min diagonal (min above left)
    here :: fillRow c ds (above :: before) here
  | _, _, _ => []

/-- From the row of the first `i` characters to that of one more. -/
def nextRow (ys : List Char) (row : List Nat) : Char × Nat → List Nat
  | (c, i) => (i + 1) :: fillRow c ys row (i + 1)

/-- The last row of the table: the distances from one text to all front parts of another. -/
def lastRow (xs ys : List Char) : List Nat :=
  xs.zipIdx.foldl (nextRow ys) (List.range (ys.length + 1))

/-- The least number of insertions, deletions and substitutions of single characters that turn one
text into the other. The shorter text is the one that rows go along. -/
def editDistance (xs ys : List Char) : Nat :=
  let distances := if xs.length < ys.length then lastRow ys xs else lastRow xs ys
  distances.getLastD 0

example : editDistance "kitten".toList "sitting".toList = 3 := by decide

end Cpu6502.Text
