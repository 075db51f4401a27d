import Cpu6502.Proofs.EditTable
import Cpu6502.Table.Suggestion

namespace Cpu6502.Suggestion

open Text

/-- What a character can be in lower case. Outside ASCII only two characters reach into it, and all
others stay single characters outside it, be they changed or not. -/
inductive LowersTo : Char → List Char → Prop where
  | ascii {c : Char} (hc : c.toNat < 128) : LowersTo c [c.toLower]
  | dotted : LowersTo '\u0130' ['i', '\u0307']
  | kelvin : LowersTo '\u212a' ['k']
  | outside {c d : Char} (hc : 128 ≤ c.toNat) (hdotted : c ≠ '\u0130') (hkelvin : c ≠ '\u212a')
      (hd : 128 ≤ d.toNat) : LowersTo c [d]

/-- A text and a lower case of it. What becomes of a character may depend on those around it. -/
inductive Lowers : List Char → List Char → Prop where
  | nil : Lowers [] []
  | cons {c : Char} {piece cs lowered : List Char} (first : LowersTo c piece)
      (rest : Lowers cs lowered) : Lowers (c :: cs) (piece ++ lowered)

theorem toLower_outside {c : Char} (h : 128 ≤ c.toNat) : c.toLower = c := by
  unfold Char.toLower
  apply dif_neg
  intro hupper
  have : c.toNat ≤ 90 := UInt32.le_iff_toNat_le.mp hupper.2
  omega

theorem lowerChar_ascii {c : Char} (h : c.toNat < 128) : lowerChar c = [c.toLower] := by
  have hdotted : c ≠ '\u0130' := by
    rintro rfl
    exact absurd h (by decide)
  have hkelvin : c ≠ '\u212a' := by
    rintro rfl
    exact absurd h (by decide)
  rw [lowerChar, if_neg hdotted, if_neg hkelvin]

theorem lowerChar_outside {c : Char} (h : 128 ≤ c.toNat) (hdotted : c ≠ '\u0130')
    (hkelvin : c ≠ '\u212a') : lowerChar c = [c] := by
  rw [lowerChar, if_neg hdotted, if_neg hkelvin, toLower_outside h]

theorem lowersTo_lowerChar (c : Char) : LowersTo c (lowerChar c) := by
  by_cases hdotted : c = '\u0130'
  · exact hdotted ▸ .dotted
  by_cases hkelvin : c = '\u212a'
  · exact hkelvin ▸ .kelvin
  rcases Nat.lt_or_ge c.toNat 128 with h | h
  · exact lowerChar_ascii h ▸ .ascii h
  · exact lowerChar_outside h hdotted hkelvin ▸ .outside h hdotted hkelvin h

theorem lowers_lower (label : String) : Lowers label.toList (lower label) := by
  unfold lower
  induction label.toList with
  | nil => exact .nil
  | cons c cs ih => exact .cons (lowersTo_lowerChar c) ih

/-- Characters that are the same or both outside ASCII, and so are the same for an ASCII text. -/
def Alike (c d : Char) : Prop := c = d ∨ 128 ≤ c.toNat ∧ 128 ≤ d.toNat

theorem LowersTo.alike {c : Char} {piece : List Char} (h : LowersTo c piece) :
    List.Forall₂ Alike piece (lowerChar c) := by
  cases h with
  | ascii hc =>
    rw [lowerChar_ascii hc]
    exact .cons (Or.inl rfl) .nil
  | dotted => exact .cons (Or.inl rfl) (.cons (Or.inl rfl) .nil)
  | kelvin => exact .cons (Or.inl rfl) .nil
  | outside hc hdotted hkelvin hd =>
    rw [lowerChar_outside hc hdotted hkelvin]
    exact .cons (Or.inr ⟨hd, hc⟩) .nil

theorem Lowers.alike {text lowered : List Char} (h : Lowers text lowered) :
    List.Forall₂ Alike lowered (text.flatMap lowerChar) := by
  induction h with
  | nil => exact .nil
  | cons first _ ih => exact List.rel_append first.alike ih

/-- A text of ASCII alone is as far from every lower case of another text. -/
theorem Lowers.editDistance_eq {label : String} {lowered : List Char}
    (h : Lowers label.toList lowered) {ascii : List Char} (hascii : ∀ c ∈ ascii, c.toNat < 128) :
    editDistance lowered ascii = editDistance (lower label) ascii := by
  rw [editDistance_eq_scriptCost, editDistance_eq_scriptCost]
  apply scriptCost_congr
  refine h.alike.imp fun c d hcd y hy => ?_
  have := hascii y hy
  rcases hcd with rfl | ⟨hc, hd⟩
  · rfl
  · constructor
    all_goals
      rintro rfl
      omega

theorem LowersTo.length {c : Char} {piece : List Char} (h : LowersTo c piece) :
    1 ≤ piece.length ∧ piece.countP (· != '\u0307') ≤ 1 := by
  have hone (d : Char) : [d].countP (· != '\u0307') ≤ 1 := List.countP_le_length
  cases h with
  | ascii => exact ⟨Nat.le_refl 1, hone _⟩
  | dotted => decide
  | kelvin => decide
  | outside => exact ⟨Nat.le_refl 1, hone _⟩

/-- Lower case makes no text shorter, and the characters that it adds are combining dots. -/
theorem Lowers.length {text lowered : List Char} (h : Lowers text lowered) :
    text.length ≤ lowered.length ∧ lowered.countP (· != '\u0307') ≤ text.length := by
  induction h with
  | nil => decide
  | cons first _ ih =>
    have := first.length
    simp only [List.length_cons, List.length_append, List.countP_append]
    omega

theorem lower_label {candidate : String} (h : candidate ∈ Mode.labels) :
    (lower candidate).length = candidate.length ∧ ∀ c ∈ lower candidate, c.toNat < 128 := by
  have hall : ∀ candidate ∈ Mode.labels, (lower candidate).length = candidate.length ∧
      (lower candidate).all (fun c => decide (c.toNat < 128)) = true := by
    decide +kernel
  obtain ⟨hlength, hascii⟩ := hall candidate h
  exact ⟨hlength, fun c hc => by simpa using List.all_eq_true.mp hascii c hc⟩

/-- Lengths that differ by more than the distance do not occur. One that is too long for the label
needs as many insertions as there are characters other than combining dots in excess. -/
theorem length_le_distance (label : String) {candidate : String} (h : candidate ∈ Mode.labels) :
    candidate.length ≤ label.length + distance label candidate ∧
      label.length ≤ candidate.length + distance label candidate := by
  obtain ⟨hlength, hascii⟩ := lower_label h
  obtain ⟨hlonger, hdots⟩ := (lowers_lower label).length
  have hscript := edits_editDistance (lower label) (lower candidate)
  have hall := (hscript.countP_le fun _ => true).1
  have hplain := (hscript.countP_le (· != '\u0307')).2
  have hnone : (lower candidate).countP (· != '\u0307') = (lower candidate).length := by
    apply List.countP_eq_length.mpr
    intro c hc
    have := hascii c hc
    rw [bne_iff_ne]
    rintro rfl
    exact absurd this (by decide)
  rw [List.countP_true] at hall
  rw [String.length_toList] at hlonger hdots
  unfold distance
  omega

theorem isNear_label (label : String) {candidate : String} (h : candidate ∈ Mode.labels) :
    isNear label candidate = decide (distance label candidate ≤ 2) := by
  have hlengths := length_le_distance label h
  rw [Bool.eq_iff_iff]
  simp only [isNear, Bool.or_eq_true, beq_iff_eq, Bool.and_eq_true, decide_eq_true_eq]
  constructor
  · rintro (hsame | ⟨_, hnear⟩)
    · simp [distance, hsame, editDistance_self]
    · exact hnear
  · intro hnear
    exact .inr ⟨by omega, hnear⟩

/-- The labels within two edits of a text in lower case. -/
def nearLabels (lowered : List Char) : List String :=
  Mode.labels.filter fun candidate => decide (editDistance lowered (lower candidate) ≤ 2)

theorem forLabel_eq {label : String} {lowered : List Char} (h : Lowers label.toList lowered) :
    forLabel label = (nearLabels lowered).take 3 := by
  unfold forLabel nearLabels
  congr 1
  apply List.filter_congr
  intro candidate hcandidate
  rw [isNear_label label hcandidate, h.editDistance_eq (lower_label hcandidate).2]
  rfl

/-- The first three labels within two edits of the label in lower case are suggested, however long
the texts are, and whichever characters outside ASCII lower case has. -/
theorem forLabel_unfiltered (label : String) :
    Lowers label.toList (lower label) ∧
    ∀ lowered, Lowers label.toList lowered →
      forLabel label =
        (Mode.labels.filter fun candidate =>
          decide (editDistance lowered (lower candidate) ≤ 2)).take 3 :=
  ⟨lowers_lower label, fun _ h => forLabel_eq h⟩

/-- A dotted capital I that becomes two characters, and an accent that the distance counts once
whatever its case is. -/
theorem forLabel_unfiltered_dotted :
    let lowered := "impli\u0307\u00e9".toList
    Lowers "IMPL\u0130\u00c9".toList lowered ∧ forLabel "IMPL\u0130\u00c9" = ["Implied"] := by
  intro lowered
  have hlowers : Lowers "IMPL\u0130\u00c9".toList lowered :=
    .cons (.ascii (by decide)) <| .cons (.ascii (by decide)) <| .cons (.ascii (by decide)) <|
      .cons (.ascii (by decide)) <| .cons .dotted <|
      .cons (.outside (d := '\u00e9') (by decide) (by decide) (by decide) (by decide)) .nil
  refine ⟨hlowers, ?_⟩
  rw [(forLabel_unfiltered _).2 lowered hlowers]
  decide +kernel

end Cpu6502.Suggestion
