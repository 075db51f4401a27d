namespace Cpu6502.Position

/-- The element at a position, if there is one. A negative position counts from the end. -/
def get? (items : Array α) (position : Int) : Option α :=
  if 0 ≤ position then items[position.toNat]?
  else if 0 ≤ position + items.size then items[(position + items.size).toNat]?
  else none

/-- The boundary between elements that a position denotes, or the nearest one there is. -/
def boundary (size : Nat) (position : Int) : Nat :=
  if 0 ≤ position then min position.toNat size else (position + size).toNat

/-- The elements between two boundaries, none if they are out of order. -/
def slice (items : Array α) (start stop : Int) : List α :=
  (items.extract (boundary items.size start) (boundary items.size stop)).toList

example : get? #[10, 20, 30] (-1) = some 30 ∧ get? #[10, 20, 30] (-4) = none := by decide
example : slice #[10, 20, 30] 1 9 = [20, 30] ∧ slice #[10, 20, 30] (-1) 0 = [] := by decide

end Cpu6502.Position
