import Cpu6502.Text.Line
import Cpu6502.Text.Numeral
import Mathlib.Data.List.TakeWhile

namespace Cpu6502.Text

variable {p : Char → Bool} {cs t : List Char}

/-- `t` is all of `cs` but the characters of a kind at its end. -/
def TrimmedRight (p : Char → Bool) (cs t : List Char) : Prop :=
  ∃ after, cs = t ++ after ∧ (∀ c ∈ after, p c = true) ∧ ∀ c ∈ t.getLast?, p c = false

/-- `t` is all of `cs` but the characters of a kind at its two ends. -/
def Trimmed (p : Char → Bool) (cs t : List Char) : Prop :=
  ∃ before after, cs = before ++ t ++ after ∧ (∀ c ∈ before, p c = true) ∧
    (∀ c ∈ after, p c = true) ∧ (∀ c ∈ t.head?, p c = false) ∧ ∀ c ∈ t.getLast?, p c = false

/-- Removes the characters of a kind from both ends. -/
def trimBy (p : Char → Bool) (cs : List Char) : List Char :=
  ((cs.dropWhile p).reverse.dropWhile p).reverse

theorem dropWhile_eq_iff : cs.dropWhile p = t ↔
    ∃ before, cs = before ++ t ∧ (∀ c ∈ before, p c = true) ∧ ∀ c ∈ t.head?, p c = false := by
  constructor
  · intro h
    subst h
    refine ⟨cs.takeWhile p, by simp, fun c hc => List.mem_takeWhile_imp hc, ?_⟩
    intro c hc
    have := List.head?_dropWhile_not p cs
    rw [Option.mem_def.mp hc] at this
    exact this
  · intro h
    obtain ⟨before, rfl, hbefore, ht⟩ := h
    rw [List.dropWhile_append_of_pos hbefore]
    cases t with
    | nil => rfl
    | cons c t => exact List.dropWhile_cons_of_neg (by simp [ht c rfl])

theorem trimmedRight_iff : (cs.reverse.dropWhile p).reverse = t ↔ TrimmedRight p cs t := by
  rw [List.reverse_eq_iff, dropWhile_eq_iff]
  constructor
  · intro h
    obtain ⟨after, hcs, hafter, ht⟩ := h
    refine ⟨after.reverse, ?_, by simpa using hafter, by simpa using ht⟩
    rw [List.reverse_eq_iff] at hcs
    rw [hcs, List.reverse_append, List.reverse_reverse]
  · intro h
    obtain ⟨after, rfl, hafter, ht⟩ := h
    exact ⟨after.reverse, by simp, by simpa using hafter, by simpa using ht⟩

theorem head?_of_append_ne_nil {after : List Char} (ht : t ≠ []) :
    (t ++ after).head? = t.head? := by
  cases t with
  | nil => exact absurd rfl ht
  | cons => rfl

/-- Trimming is the relation, also where nothing remains. -/
theorem trimBy_eq_iff : trimBy p cs = t ↔ Trimmed p cs t := by
  unfold trimBy
  rw [trimmedRight_iff]
  constructor
  · intro h
    obtain ⟨after, hdrop, hafter, hlast⟩ := h
    obtain ⟨before, hcs, hbefore, hhead⟩ := dropWhile_eq_iff.mp hdrop
    refine ⟨before, after, by rw [hcs, List.append_assoc], hbefore, hafter, ?_, hlast⟩
    intro c hc
    refine hhead c ?_
    rw [head?_of_append_ne_nil (by rintro rfl; simp at hc)]
    exact hc
  · intro h
    obtain ⟨before, after, rfl, hbefore, hafter, hhead, hlast⟩ := h
    by_cases ht : t = []
    · subst ht
      refine ⟨[], ?_, by simp, by simp⟩
      rw [List.append_nil, List.append_nil, List.dropWhile_eq_nil_iff]
      intro c hc
      rcases List.mem_append.mp hc with hc | hc
      · exact hbefore c hc
      · exact hafter c hc
    · refine ⟨after, dropWhile_eq_iff.mpr ⟨before, by simp, hbefore, ?_⟩, hafter, hlast⟩
      rw [head?_of_append_ne_nil ht]
      exact hhead

theorem trim_eq_iff : trim cs = t ↔ Trimmed isBlank cs t := trimBy_eq_iff

theorem trimRight_eq_iff : trimRight cs = t ↔ TrimmedRight isBlank cs t := trimmedRight_iff

theorem chomp_eq_iff : chomp cs = t ↔ TrimmedRight (fun c => c == '\r' || c == '\n') cs t :=
  trimmedRight_iff

theorem trimBy_map (f : Char → Char) : trimBy p (cs.map f) = (trimBy (p ∘ f) cs).map f := by
  simp only [trimBy, List.dropWhile_map, ← List.map_reverse]

end Cpu6502.Text
