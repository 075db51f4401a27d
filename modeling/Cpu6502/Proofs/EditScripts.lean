import Cpu6502.Text.EditDistance
import Mathlib.Data.List.Forall2

namespace Cpu6502.Text

/-- One character is inserted, deleted or replaced, anywhere in the text. -/
inductive Edit : List Char → List Char → Prop where
  | insert (before : List Char) (c : Char) (after : List Char) :
      Edit (before ++ after) (before ++ c :: after)
  | delete (before : List Char) (c : Char) (after : List Char) :
      Edit (before ++ c :: after) (before ++ after)
  | replace (before : List Char) (c d : Char) (after : List Char) :
      Edit (before ++ c :: after) (before ++ d :: after)

/-- So many edits, one after the other. -/
inductive Edits : Nat → List Char → List Char → Prop where
  | nil (xs : List Char) : Edits 0 xs xs
  | cons {n : Nat} {xs ys zs : List Char} (first : Edit xs ys) (rest : Edits n ys zs) :
      Edits (n + 1) xs zs

theorem Edit.behind (c : Char) {xs ys : List Char} (h : Edit xs ys) : Edit (c :: xs) (c :: ys) := by
  cases h with
  | insert before d after => exact .insert (c :: before) d after
  | delete before d after => exact .delete (c :: before) d after
  | replace before d e after => exact .replace (c :: before) d e after

theorem Edits.behind (c : Char) {n : Nat} {xs ys : List Char} (h : Edits n xs ys) :
    Edits n (c :: xs) (c :: ys) := by
  induction h with
  | nil xs => exact .nil (c :: xs)
  | cons first _ ih => exact .cons (first.behind c) ih

theorem Edit.reverse {xs ys : List Char} (h : Edit xs ys) : Edit xs.reverse ys.reverse := by
  cases h with
  | insert before c after =>
    simpa using Edit.insert after.reverse c before.reverse
  | delete before c after =>
    simpa using Edit.delete after.reverse c before.reverse
  | replace before c d after =>
    simpa using Edit.replace after.reverse c d before.reverse

theorem Edits.append {m n : Nat} {xs ys zs : List Char} (h : Edits m xs ys) (h' : Edits n ys zs) :
    Edits (m + n) xs zs := by
  induction h with
  | nil xs => rwa [Nat.zero_add]
  | @cons m xs _ _ first _ ih =>
    rw [Nat.add_right_comm]
    exact .cons first (ih h')

theorem Edits.reverse {n : Nat} {xs ys : List Char} (h : Edits n xs ys) :
    Edits n xs.reverse ys.reverse := by
  induction h with
  | nil xs => exact .nil xs.reverse
  | cons first _ ih => exact .cons first.reverse ih

/-- The costs of scripts from a text with one more character at its front, of which those from
the text itself are known. -/
def costBehind (x : Char) (costs : List Char → Nat) : List Char → Nat
  | [] => costs [] + 1
  | y :: ys =>
    if x = y then costs ys
    else 1 + min (costs ys) (min (costs (y :: ys)) (costBehind x costs ys))

/-- The cost of a script that goes through both texts from the front, keeps what is the same and
takes the cheapest edit otherwise. -/
def scriptCost : List Char → List Char → Nat
  | [] => List.length
  | x :: xs => costBehind x (scriptCost xs)

theorem scriptCost_nil_left (ys : List Char) : scriptCost [] ys = ys.length := rfl

theorem scriptCost_nil_right (xs : List Char) : scriptCost xs [] = xs.length := by
  induction xs with
  | nil => rfl
  | cons x xs ih => exact congrArg (· + 1) ih

theorem scriptCost_cons_cons (x : Char) (xs : List Char) (y : Char) (ys : List Char) :
    scriptCost (x :: xs) (y :: ys) =
      if x = y then scriptCost xs ys
      else 1 + min (scriptCost xs ys)
        (min (scriptCost xs (y :: ys)) (scriptCost (x :: xs) ys)) := rfl

theorem scriptCost_self (xs : List Char) : scriptCost xs xs = 0 := by
  induction xs with
  | nil => rfl
  | cons x xs ih => rw [scriptCost_cons_cons, if_pos rfl, ih]

theorem scriptCost_comm (xs ys : List Char) : scriptCost xs ys = scriptCost ys xs := by
  induction xs generalizing ys with
  | nil => rw [scriptCost_nil_left, scriptCost_nil_right]
  | cons x xs ihx =>
    induction ys with
    | nil => rw [scriptCost_nil_left, scriptCost_nil_right]
    | cons y ys ihy =>
      simp only [scriptCost_cons_cons, ihx, ihy, eq_comm (a := y)]
      rw [Nat.min_comm (scriptCost (y :: ys) xs)]

/-- There is a script of this cost. -/
theorem edits_scriptCost (xs ys : List Char) : Edits (scriptCost xs ys) xs ys := by
  induction xs generalizing ys with
  | nil =>
    rw [scriptCost_nil_left]
    induction ys with
    | nil => exact .nil []
    | cons y ys ih => exact .cons (.insert [] y []) (ih.behind y)
  | cons x xs ihx =>
    induction ys with
    | nil =>
      have hrest := ihx []
      rw [scriptCost_nil_right] at hrest ⊢
      exact .cons (.delete [] x xs) hrest
    | cons y ys ihy =>
      rw [scriptCost_cons_cons]
      split
      · rename_i hsame
        exact hsame ▸ (ihx ys).behind x
      · let replaced := scriptCost xs ys
        let deleted := scriptCost xs (y :: ys)
        let inserted := scriptCost (x :: xs) ys
        have hcheapest : min replaced (min deleted inserted) = replaced ∨
            min replaced (min deleted inserted) = deleted ∨
            min replaced (min deleted inserted) = inserted := by omega
        rw [Nat.add_comm]
        rcases hcheapest with h | h | h
        · exact h ▸ .cons (.replace [] x y xs) ((ihx ys).behind y)
        · exact h ▸ .cons (.delete [] x xs) (ihx (y :: ys))
        · exact h ▸ .cons (.insert [] y (x :: xs)) (ihy.behind y)

/-- A character more at the front of the first text changes the cost by one at most. -/
def Steady (xs ys : List Char) : Prop :=
  ∀ x, scriptCost (x :: xs) ys ≤ scriptCost xs ys + 1 ∧
    scriptCost xs ys ≤ scriptCost (x :: xs) ys + 1

theorem steady_nil_right (xs : List Char) : Steady xs [] := by
  intro x
  simp only [scriptCost_nil_right, List.length_cons]
  omega

/-- A match is kept without looking at the other two scripts. Neither of them is cheaper by more
than its edit costs, and this is where both texts have to be looked at at once. -/
theorem steady_cons_right {xs ys : List Char} (h : Steady xs ys) (h' : Steady ys xs) (y : Char) :
    Steady xs (y :: ys) := by
  intro x
  have hx := h x
  have hy := h' y
  rw [scriptCost_comm (y :: ys), scriptCost_comm ys] at hy
  rw [scriptCost_cons_cons]
  split <;> omega

theorem steady_nil_left (ys : List Char) : Steady [] ys := by
  induction ys with
  | nil => exact steady_nil_right []
  | cons y ys ih => exact steady_cons_right ih (steady_nil_right ys) y

theorem steady (xs ys : List Char) : Steady xs ys ∧ Steady ys xs := by
  induction xs generalizing ys with
  | nil => exact ⟨steady_nil_left ys, steady_nil_right ys⟩
  | cons x xs ihx =>
    induction ys with
    | nil => exact ⟨steady_nil_right (x :: xs), steady_nil_left (x :: xs)⟩
    | cons y ys ihy =>
      have hless := ihx (y :: ys)
      exact ⟨steady_cons_right ihy.1 ihy.2 y, steady_cons_right hless.2 hless.1 x⟩

theorem scriptCost_cons_le (x : Char) (xs ys : List Char) :
    scriptCost (x :: xs) ys ≤ scriptCost xs ys + 1 := ((steady xs ys).1 x).1

theorem scriptCost_le_cons (x : Char) (xs ys : List Char) :
    scriptCost xs ys ≤ scriptCost (x :: xs) ys + 1 := ((steady xs ys).1 x).2

/-- Whatever first texts do to a cost, they do it behind a common character as well. -/
theorem scriptCost_behind {xs xs' : List Char}
    (h : ∀ ys, scriptCost xs ys ≤ scriptCost xs' ys + 1) (c : Char) (ys : List Char) :
    scriptCost (c :: xs) ys ≤ scriptCost (c :: xs') ys + 1 := by
  induction ys with
  | nil =>
    have := h []
    simp only [scriptCost_nil_right, List.length_cons] at this ⊢
    omega
  | cons y ys ih =>
    have hdiagonal := h ys
    have hbelow := h (y :: ys)
    rw [scriptCost_cons_cons, scriptCost_cons_cons]
    split <;> omega

/-- To give up both first characters costs one edit at most. -/
theorem scriptCost_cons_cons_le (x : Char) (xs : List Char) (y : Char) (ys : List Char) :
    scriptCost (x :: xs) (y :: ys) ≤ scriptCost xs ys + 1 := by
  rw [scriptCost_cons_cons]
  split <;> omega

theorem scriptCost_replace (c d : Char) (xs ys : List Char) :
    scriptCost (c :: xs) ys ≤ scriptCost (d :: xs) ys + 1 := by
  induction ys with
  | nil => simp [scriptCost_nil_right]
  | cons y ys ih =>
    have hreplace := scriptCost_cons_cons_le c xs y ys
    have hdelete := scriptCost_cons_le c xs (y :: ys)
    have hinsert := scriptCost_cons_le y ys (c :: xs)
    rw [scriptCost_comm (y :: ys), scriptCost_comm ys] at hinsert
    rw [scriptCost_cons_cons d]
    split <;> omega

/-- No edit brings a text nearer to another by more than one. -/
theorem Edit.scriptCost_le {xs xs' : List Char} (h : Edit xs xs') (ys : List Char) :
    scriptCost xs ys ≤ scriptCost xs' ys + 1 := by
  cases h with
  | insert before c after =>
    induction before generalizing ys with
    | nil => exact scriptCost_le_cons c after ys
    | cons b before ih => exact scriptCost_behind ih b ys
  | delete before c after =>
    induction before generalizing ys with
    | nil => exact scriptCost_cons_le c after ys
    | cons b before ih => exact scriptCost_behind ih b ys
  | replace before c d after =>
    induction before generalizing ys with
    | nil => exact scriptCost_replace c d after ys
    | cons b before ih => exact scriptCost_behind ih b ys

theorem Edits.scriptCost_le {n : Nat} {xs ys : List Char} (h : Edits n xs ys) :
    scriptCost xs ys ≤ n := by
  induction h with
  | nil xs => exact Nat.le_of_eq (scriptCost_self xs)
  | @cons n xs ys zs first _ ih =>
    have := first.scriptCost_le zs
    omega

/-- How many characters of a kind there are changes with every edit by one at most. -/
theorem Edit.countP_le (p : Char → Bool) {xs ys : List Char} (h : Edit xs ys) :
    xs.countP p ≤ ys.countP p + 1 ∧ ys.countP p ≤ xs.countP p + 1 := by
  cases h with
  | insert before c after | delete before c after =>
    simp only [List.countP_append, List.countP_cons]
    split <;> omega
  | replace before c d after =>
    simp only [List.countP_append, List.countP_cons]
    split <;> split <;> omega

theorem Edits.countP_le (p : Char → Bool) {n : Nat} {xs ys : List Char} (h : Edits n xs ys) :
    xs.countP p ≤ ys.countP p + n ∧ ys.countP p ≤ xs.countP p + n := by
  induction h with
  | nil xs => exact ⟨Nat.le_refl _, Nat.le_refl _⟩
  | cons first _ ih =>
    have := first.countP_le p
    omega

/-- Only which characters are the same matters for a cost, not which characters they are. -/
theorem scriptCost_congr {xs xs' ys : List Char}
    (h : List.Forall₂ (fun x x' => ∀ y ∈ ys, x = y ↔ x' = y) xs xs') :
    scriptCost xs ys = scriptCost xs' ys := by
  induction xs generalizing xs' ys with
  | nil =>
    cases h
    rfl
  | cons x xs ihx =>
    obtain ⟨x', xs', hx, hxs, rfl⟩ := List.forall₂_cons_left_iff.mp h
    clear h
    induction ys with
    | nil => simp only [scriptCost_nil_right, List.length_cons, hxs.length_eq]
    | cons y ys ihy =>
      have hless : ∀ x x', (∀ z ∈ y :: ys, x = z ↔ x' = z) → ∀ z ∈ ys, x = z ↔ x' = z :=
        fun _ _ hz z hm => hz z (List.mem_cons_of_mem y hm)
      have hrest := hxs.imp hless
      rw [scriptCost_cons_cons, scriptCost_cons_cons, ihx hxs, ihx hrest,
        ihy (hless x x' hx) hrest]
      simp only [hx y List.mem_cons_self]

/-- Scripts cost the same from the back, as every edit can be made there. -/
theorem scriptCost_reverse (xs ys : List Char) :
    scriptCost xs.reverse ys.reverse = scriptCost xs ys := by
  apply Nat.le_antisymm
  · exact (edits_scriptCost xs ys).reverse.scriptCost_le
  · have h := (edits_scriptCost xs.reverse ys.reverse).reverse
    rw [List.reverse_reverse, List.reverse_reverse] at h
    exact h.scriptCost_le

end Cpu6502.Text
