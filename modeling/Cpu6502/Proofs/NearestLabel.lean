import Cpu6502.Proofs.LabelSuggestions
import Mathlib.Data.Finset.Max

namespace Cpu6502.Suggestion

open Text

/-- The labels within four edits of a label. All that one text is near to are among them. -/
def group (label : String) : List String :=
  Mode.labels.filter fun candidate => decide (distance label candidate ≤ 4)

theorem mem_nearLabels {lowered : List Char} {candidate : String} :
    candidate ∈ nearLabels lowered ↔
      candidate ∈ Mode.labels ∧ editDistance lowered (lower candidate) ≤ 2 := by
  simp [nearLabels]

/-- There are at most four labels in a group. The last of four is as far from one of the others as
two that are near the same text can be. -/
theorem group_size {label : String} (h : label ∈ Mode.labels) :
    (group label).length ≤ 4 ∧
      ∀ last ∈ (group label).drop 3, ∃ first ∈ (group label).take 3, 4 ≤ distance first last := by
  have hall : ∀ label ∈ Mode.labels, (group label).length ≤ 4 ∧
      ∀ last ∈ (group label).drop 3, ∃ first ∈ (group label).take 3, 4 ≤ distance first last := by
    decide +kernel
  exact hall label h

theorem eq_of_lower_eq {a b : String} (ha : a ∈ Mode.labels) (hb : b ∈ Mode.labels)
    (h : lower a = lower b) : a = b := by
  have hall : ∀ a ∈ Mode.labels, ∀ b ∈ Mode.labels, lower a = lower b → a = b := by decide +kernel
  exact hall a ha b hb h

/-- Two labels are no further apart than the way from one to the other over a text. -/
theorem distance_le_add (lowered : List Char) (a b : String) :
    distance a b ≤ editDistance lowered (lower a) + editDistance lowered (lower b) := by
  have htriangle := editDistance_triangle (lower a) lowered (lower b)
  rwa [editDistance_comm (lower a) lowered] at htriangle

theorem nearLabels_sublist {lowered : List Char} {label : String} (h : label ∈ nearLabels lowered) :
    (nearLabels lowered).Sublist (group label) := by
  have hgroup : nearLabels lowered = (group label).filter
      fun candidate => decide (editDistance lowered (lower candidate) ≤ 2) := by
    unfold nearLabels group
    rw [List.filter_filter]
    apply List.filter_congr
    intro candidate hcandidate
    rw [Bool.eq_self_and, decide_eq_true_eq, decide_eq_true_eq]
    intro hnear
    have := distance_le_add lowered label candidate
    have := (mem_nearLabels.mp h).2
    omega
  rw [hgroup]
  exact List.filter_sublist

/-- No more than one label is left out, and one that is suggested is as near as that. -/
theorem nearLabels_cut (lowered : List Char) :
    (nearLabels lowered).length ≤ 4 ∧
      ∀ last ∈ (nearLabels lowered).drop 3, ∃ best ∈ (nearLabels lowered).take 3,
        editDistance lowered (lower best) ≤ editDistance lowered (lower last) := by
  cases hnear : nearLabels lowered with
  | nil => simp
  | cons label rest =>
    have hlabel : label ∈ nearLabels lowered := by simp [hnear]
    have hsublist := nearLabels_sublist hlabel
    obtain ⟨hlength, hlast⟩ := group_size (mem_nearLabels.mp hlabel).1
    rw [← hnear]
    refine ⟨Nat.le_trans hsublist.length_le hlength, ?_⟩
    intro last hmem
    -- Four near labels are the whole group, and the last of them is four edits from another.
    have hfour : 3 < (nearLabels lowered).length := by
      have := List.length_pos_of_mem hmem
      rw [List.length_drop] at this
      omega
    have hgroup : nearLabels lowered = group label := hsublist.eq_of_length_le (by omega)
    rw [← hgroup] at hlast
    obtain ⟨first, hfirst, hfar⟩ := hlast last hmem
    have hway := distance_le_add lowered first last
    have hnear := (mem_nearLabels.mp (List.mem_of_mem_take hfirst)).2
    exact ⟨first, hfirst, by omega⟩

theorem exists_best {lowered : List Char}
    (h : ∃ candidate ∈ Mode.labels, editDistance lowered (lower candidate) ≤ 2) :
    ∃ best ∈ (nearLabels lowered).take 3, ∀ candidate ∈ Mode.labels,
      editDistance lowered (lower best) ≤ editDistance lowered (lower candidate) := by
  obtain ⟨candidate, hcandidate, hnear⟩ := h
  obtain ⟨nearest, hnearest, hleast⟩ := Mode.labels.toFinset.exists_min_image
    (fun candidate => editDistance lowered (lower candidate))
    ⟨candidate, List.mem_toFinset.mpr hcandidate⟩
  simp only [List.mem_toFinset] at hnearest hleast
  have hmem : nearest ∈ nearLabels lowered :=
    mem_nearLabels.mpr ⟨hnearest, Nat.le_trans (hleast candidate hcandidate) hnear⟩
  rw [← List.take_append_drop 3 (nearLabels lowered)] at hmem
  rcases List.mem_append.mp hmem with htake | hdrop
  · exact ⟨nearest, htake, hleast⟩
  · obtain ⟨best, hbest, hle⟩ := (nearLabels_cut lowered).2 nearest hdrop
    exact ⟨best, hbest, fun other hother => Nat.le_trans hle (hleast other hother)⟩

/-- At most one label within two edits is cut off, and one that is nearest of all never is. -/
theorem forLabel_nearest {label : String} {lowered : List Char} (h : Lowers label.toList lowered)
    (hnear : ∃ candidate ∈ Mode.labels, editDistance lowered (lower candidate) ≤ 2) :
    forLabel label ≠ [] ∧
    (∃ best ∈ forLabel label, best ∈ Mode.labels ∧ ∀ candidate ∈ Mode.labels,
      editDistance lowered (lower best) ≤ editDistance lowered (lower candidate)) ∧
    (∃ cut, nearLabels lowered = forLabel label ++ cut ∧ cut.length ≤ 1) ∧
    ∀ candidate ∈ Mode.labels, lower candidate = lowered → candidate ∈ forLabel label := by
  obtain ⟨best, hbest, hleast⟩ := exists_best hnear
  have hlabel : best ∈ Mode.labels := (mem_nearLabels.mp (List.mem_of_mem_take hbest)).1
  rw [forLabel_eq h]
  refine ⟨List.ne_nil_of_mem hbest, ⟨best, hbest, hlabel, hleast⟩, ?_, ?_⟩
  · refine ⟨(nearLabels lowered).drop 3, (List.take_append_drop 3 _).symm, ?_⟩
    have := (nearLabels_cut lowered).1
    rw [List.length_drop]
    omega
  · rintro candidate hcandidate rfl
    have hzero := hleast candidate hcandidate
    rw [editDistance_self, Nat.le_zero] at hzero
    obtain rfl := eq_of_lower_eq hcandidate hlabel (editDistance_eq_zero.mp hzero)
    exact hbest

/-- Four labels are two edits from this text. The one left out is no nearer than the others. -/
theorem forLabel_nearest_four :
    let lowered := "(indirect)".toList
    Lowers "(INDIRECT)".toList lowered ∧ editDistance lowered (lower "Indirect") ≤ 2 ∧
    nearLabels lowered = forLabel "(INDIRECT)" ++ ["(Indirect,Y)"] ∧
    ∃ best ∈ forLabel "(INDIRECT)", ∀ candidate ∈ Mode.labels,
      editDistance lowered (lower best) ≤ editDistance lowered (lower candidate) := by
  intro lowered
  have hlowers : Lowers "(INDIRECT)".toList lowered := lowers_lower "(INDIRECT)"
  have hnear : editDistance lowered (lower "Indirect") ≤ 2 := by decide +kernel
  obtain ⟨_, ⟨best, hbest, _, hleast⟩, _⟩ := forLabel_nearest hlowers ⟨_, by decide, hnear⟩
  exact ⟨hlowers, hnear, by decide +kernel, best, hbest, hleast⟩

end Cpu6502.Suggestion
