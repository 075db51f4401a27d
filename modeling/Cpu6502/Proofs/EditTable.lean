import Cpu6502.Proofs.EditScripts
import Mathlib.Order.Bounds.Defs

namespace Cpu6502.Text

/-- A row of the table, as costs of scripts. Both texts are given from the back, `us` is the part
of the second one that the first entry is for, and `ds` what follows that part. -/
def costRow (xs us : List Char) : List Char → List Nat
  | [] => [scriptCost xs us]
  | d :: ds => scriptCost xs us :: costRow xs (d :: us) ds

theorem costRow_eq_cons (xs us ds : List Char) :
    costRow xs us ds = scriptCost xs us :: (costRow xs us ds).tail := by
  cases ds <;> rfl

theorem range_eq_costRow (us ds : List Char) :
    List.range' us.length (ds.length + 1) = costRow [] us ds := by
  induction ds generalizing us with
  | nil => rfl
  | cons d ds ih => exact congrArg (us.length :: ·) (ih (d :: us))

/-- A row is filled from the one before it. -/
theorem fillRow_costRow (c : Char) (xs us ds : List Char) :
    scriptCost (c :: xs) us :: fillRow c ds (costRow xs us ds) (scriptCost (c :: xs) us) =
      costRow (c :: xs) us ds := by
  induction ds generalizing us with
  | nil => rfl
  | cons d ds ih =>
    rw [costRow, costRow, ← ih (d :: us), costRow_eq_cons xs (d :: us) ds]
    rfl

/-- Every step of the loop over the first text goes on to the row of one more character. -/
theorem foldl_costRow (xs us ys : List Char) :
    (xs.zipIdx us.length).foldl (nextRow ys) (costRow us [] ys) =
      costRow (xs.reverse ++ us) [] ys := by
  induction xs generalizing us with
  | nil => rfl
  | cons x xs ih =>
    have hrow : nextRow ys (costRow us [] ys) (x, us.length) = costRow (x :: us) [] ys := by
      rw [← fillRow_costRow, scriptCost_nil_right]
      rfl
    rw [List.zipIdx_cons, List.foldl_cons, hrow, List.reverse_cons, List.append_assoc]
    exact ih (x :: us)

theorem getLastD_costRow (xs us ds : List Char) (fallback : Nat) :
    (costRow xs us ds).getLastD fallback = scriptCost xs (ds.reverse ++ us) := by
  induction ds generalizing us fallback with
  | nil => rfl
  | cons d ds ih =>
    rw [costRow, List.getLastD_cons, ih, List.reverse_cons, List.append_assoc]
    rfl

/-- The last row ends with the cost of a script between the two texts from the back. -/
theorem getLastD_lastRow (xs ys : List Char) :
    (lastRow xs ys).getLastD 0 = scriptCost xs.reverse ys.reverse := by
  have hfirst : List.range (ys.length + 1) = costRow [] [] ys := by
    rw [List.range_eq_range']
    exact range_eq_costRow [] ys
  have hrow : lastRow xs ys = costRow xs.reverse [] ys := by
    rw [lastRow, hfirst, ← List.append_nil xs.reverse]
    exact foldl_costRow xs [] ys
  rw [hrow, getLastD_costRow, List.append_nil]

theorem editDistance_eq_scriptCost (xs ys : List Char) : editDistance xs ys = scriptCost xs ys := by
  unfold editDistance
  split
  · rw [getLastD_lastRow, scriptCost_reverse, scriptCost_comm]
  · rw [getLastD_lastRow, scriptCost_reverse]

theorem edits_editDistance (xs ys : List Char) : Edits (editDistance xs ys) xs ys := by
  rw [editDistance_eq_scriptCost]
  exact edits_scriptCost xs ys

theorem Edits.editDistance_le {n : Nat} {xs ys : List Char} (h : Edits n xs ys) :
    editDistance xs ys ≤ n := by
  rw [editDistance_eq_scriptCost]
  exact h.scriptCost_le

theorem editDistance_self (xs : List Char) : editDistance xs xs = 0 :=
  Nat.le_zero.mp (Edits.nil xs).editDistance_le

theorem editDistance_comm (xs ys : List Char) : editDistance xs ys = editDistance ys xs := by
  rw [editDistance_eq_scriptCost, editDistance_eq_scriptCost, scriptCost_comm]

/-- A way over another text is no shorter. -/
theorem editDistance_triangle (xs ys zs : List Char) :
    editDistance xs zs ≤ editDistance xs ys + editDistance ys zs :=
  ((edits_editDistance xs ys).append (edits_editDistance ys zs)).editDistance_le

theorem editDistance_eq_zero {xs ys : List Char} : editDistance xs ys = 0 ↔ xs = ys := by
  constructor
  · intro h
    have hscript := edits_editDistance xs ys
    rw [h] at hscript
    cases hscript
    rfl
  · rintro rfl
    exact editDistance_self xs

/-- The distance is the least number of edits between two texts. -/
theorem editDistance_isLeast (xs ys : List Char) :
    IsLeast {n | Edits n xs ys} (editDistance xs ys) := by
  constructor
  · exact edits_editDistance xs ys
  · intro n h
    exact h.editDistance_le

end Cpu6502.Text
