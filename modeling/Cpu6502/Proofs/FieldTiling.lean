import Cpu6502.Proofs.FieldPlaces

namespace Cpu6502.Field

variable {chars front segment back : List Char} {bars position : Nat} {c : Char} {f : Field}

/-- The field takes up this position of its line, counted from zero. -/
def Covers (f : Field) (position : Nat) : Prop :=
  f.column ≤ position + 1 ∧ position + 1 < f.column + f.text.length

/-- How many bars of a line are before a position. -/
def barsBefore (chars : List Char) (position : Nat) : Nat := (chars.take position).count separator

theorem barsBefore_mono {a b : Nat} (h : a ≤ b) : barsBefore chars a ≤ barsBefore chars b :=
  (List.take_sublist_take_left h).count_le separator

theorem barsBefore_succ (h : chars[position]? = some separator) :
    barsBefore chars (position + 1) = barsBefore chars position + 1 := by
  rw [barsBefore, barsBefore, List.take_add_one, h, Option.toList_some, List.count_append,
    List.count_singleton_self]

namespace Segment

/-- Positions of a segment have as many bars before them as the segment has. -/
theorem barsBefore_eq (h : Segment chars bars front segment back) (hlow : front.length ≤ position)
    (hhigh : position ≤ front.length + segment.length) : barsBefore chars position = bars := by
  obtain ⟨k, rfl⟩ := Nat.exists_eq_add_of_le hlow
  have htake : chars.take (front.length + k) = front ++ segment.take k := by
    rw [h.eq, List.append_assoc, List.take_length_add_append,
      List.take_append_of_le_length (by omega)]
  have hnone : (segment.take k).count separator = 0 := by
    apply List.count_eq_zero.mpr
    exact fun hmem => h.not_mem (List.mem_of_mem_take hmem)
  rw [barsBefore, htake, List.count_append, h.count_front, hnone, Nat.add_zero]

theorem bar_before (h : Segment chars bars front segment back) (hne : front ≠ []) :
    chars[front.length - 1]? = some separator := by
  rcases h.front_bar with hempty | hlast
  · exact absurd hempty hne
  · have hpos := List.length_pos_of_ne_nil hne
    rw [h.eq, List.append_assoc, List.getElem?_append_left (by omega), ← List.getLast?_eq_getElem?,
      hlast]

theorem bar_behind (h : Segment chars bars front segment back)
    (hlt : front.length + segment.length < chars.length) :
    chars[front.length + segment.length]? = some separator := by
  have hback : back ≠ [] := by
    intro hempty
    rw [h.eq, hempty, List.append_nil, List.length_append] at hlt
    omega
  rcases h.back_bar with hempty | hhead
  · exact absurd hempty hback
  · rw [h.eq, List.getElem?_append_right (by simp), List.length_append, Nat.sub_self,
      ← List.head?_eq_getElem?, hhead]

/-- A position with as many bars before it as the segment, and no bar itself, is in the segment. -/
theorem position_range (h : Segment chars bars front segment back) (hc : chars[position]? = some c)
    (hbar : c ≠ separator) (hbars : barsBefore chars position = bars) :
    front.length ≤ position ∧ position < front.length + segment.length := by
  obtain ⟨hlength, _⟩ := List.getElem?_eq_some_iff.mp hc
  have hstart : barsBefore chars front.length = bars := h.barsBefore_eq (by omega) (by omega)
  have hstop : barsBefore chars (front.length + segment.length) = bars :=
    h.barsBefore_eq (by omega) (by omega)
  constructor
  · by_contra hlow
    have hne : front ≠ [] := List.ne_nil_of_length_pos (by omega)
    have hlast := barsBefore_succ (h.bar_before hne)
    rw [Nat.sub_add_cancel (by omega), hstart] at hlast
    have hmono : barsBefore chars position ≤ barsBefore chars (front.length - 1) :=
      barsBefore_mono (by omega)
    omega
  · by_contra hhigh
    have hbehind := h.bar_behind (by omega)
    rcases Nat.eq_or_lt_of_le (Nat.not_lt.mp hhigh) with heq | hlt
    · rw [heq, hc, Option.some.injEq] at hbehind
      exact hbar hbehind
    · have hnext := barsBefore_succ hbehind
      have hmono :
          barsBefore chars (front.length + segment.length + 1) ≤ barsBefore chars position :=
        barsBefore_mono hlt
      omega

/-- Bars with fewer bars before them come before the segment, and all others behind it. -/
theorem bar_range (h : Segment chars bars front segment back)
    (hbar : chars[position]? = some separator) :
    (barsBefore chars position < bars → position < front.length) ∧
      (bars ≤ barsBefore chars position → front.length + segment.length ≤ position) := by
  have hnext := barsBefore_succ hbar
  constructor
  · intro hfew
    by_contra hlow
    have hstart : barsBefore chars front.length = bars := h.barsBefore_eq (by omega) (by omega)
    have hmono : barsBefore chars front.length ≤ barsBefore chars position :=
      barsBefore_mono (by omega)
    omega
  · intro hmany
    by_contra hhigh
    have hstop : barsBefore chars (front.length + segment.length) = bars :=
      h.barsBefore_eq (by omega) (by omega)
    have hmono :
        barsBefore chars (position + 1) ≤ barsBefore chars (front.length + segment.length) :=
      barsBefore_mono (by omega)
    omega

end Segment

namespace Stands

theorem barsBefore_eq (h : Stands chars bars f) (hlow : f.column ≤ position + 1)
    (hhigh : position + 1 ≤ f.column + f.text.length) : barsBefore chars position = bars := by
  obtain ⟨front, left, right, back, hsegment, _, _, _, hcolumn⟩ := h
  apply hsegment.barsBefore_eq
  · omega
  · simp only [List.length_append]
    omega

theorem bar_range (h : Stands chars bars f) (hbar : chars[position]? = some separator) :
    (barsBefore chars position < bars → position + 1 < f.column) ∧
      (bars ≤ barsBefore chars position → f.column + f.text.length ≤ position + 1) := by
  obtain ⟨front, left, right, back, hsegment, _, _, _, hcolumn⟩ := h
  obtain ⟨hbefore, hbehind⟩ := hsegment.bar_range hbar
  simp only [List.length_append] at hbehind
  constructor
  · intro hfew
    have := hbefore hfew
    omega
  · intro hmany
    have := hbehind hmany
    omega

/-- Nothing but blanks is left between a field and the bars around it. -/
theorem covers (h : Stands chars bars f) (hc : chars[position]? = some c) (hbar : c ≠ separator)
    (hblank : Text.isBlank c = false) (hbars : barsBefore chars position = bars) :
    f.Covers position := by
  obtain ⟨front, left, right, back, hsegment, _, hleft, hright, hcolumn⟩ := h
  obtain ⟨hlow, hhigh⟩ := hsegment.position_range hc hbar hbars
  obtain ⟨k, rfl⟩ := Nat.exists_eq_add_of_le hlow
  have hk : (left ++ f.text ++ right)[k]? = some c := by
    rw [hsegment.eq, List.append_assoc, List.getElem?_append_right (by omega),
      Nat.add_sub_cancel_left, List.getElem?_append_left (by omega)] at hc
    exact hc
  have hno {cs : List Char} (hcs : ∀ c ∈ cs, Text.isBlank c = true) {i : Nat} :
      cs[i]? ≠ some c := by
    intro hi
    rw [hcs c (List.mem_of_getElem? hi)] at hblank
    cases hblank
  have hbehind : left.length ≤ k := by
    by_contra hlt
    rw [List.append_assoc, List.getElem?_append_left (by omega)] at hk
    exact hno hleft hk
  have hbefore : k < left.length + f.text.length := by
    by_contra hge
    rw [List.getElem?_append_right (by rw [List.length_append]; omega)] at hk
    exact hno hright hk
  exact ⟨by omega, by omega⟩

theorem trimmed (h : Stands chars bars f) : separator ∉ f.text ∧
    (∀ c ∈ f.text.head?, Text.isBlank c = false) ∧
      ∀ c ∈ f.text.getLast?, Text.isBlank c = false := by
  obtain ⟨front, left, right, back, hsegment, htrim, _⟩ := h
  obtain ⟨_, _, _, _, _, hhead, hlast⟩ := Text.trim_eq_iff.mp htrim
  refine ⟨?_, hhead, hlast⟩
  intro hmem
  exact hsegment.not_mem (by simp [hmem])

end Stands

theorem length_split (chars : List Char) : (split chars).length = chars.count separator + 1 := by
  obtain ⟨before, last, hsplit⟩ : ∃ before last, chars.splitOn separator = before ++ [last] := by
    rcases List.eq_nil_or_concat (chars.splitOn separator) with hempty | hlast
    · exact absurd hempty (by simp)
    · simpa using hlast
  have hsegment := segment_splitOn hsplit
  have hback : opened [] = [] := rfl
  rw [split, length_locate, hsplit, List.length_append, List.length_singleton, hsegment.eq, hback,
    List.append_nil, List.count_append, hsegment.count_front,
    List.count_eq_zero.mpr hsegment.not_mem, Nat.add_zero]

/-- What fields have to do with the line that they were split from. -/
structure Tiling (chars : List Char) (fields : List Field) : Prop where
  length_eq : fields.length = chars.count separator + 1
  trimmed : ∀ f ∈ fields, separator ∉ f.text ∧ (∀ c ∈ f.text.head?, Text.isBlank c = false) ∧
    ∀ c ∈ f.text.getLast?, Text.isBlank c = false
  slice : ∀ f ∈ fields, 0 < f.column ∧ (chars.drop (f.column - 1)).take f.text.length = f.text
  between : ∀ k f, fields[k]? = some f → ∀ p, chars[p]? = some separator →
    (barsBefore chars p < k → p + 1 < f.column) ∧
      (k ≤ barsBefore chars p → f.column + f.text.length ≤ p + 1)
  covered : ∀ p c, chars[p]? = some c → c = separator ∨ Text.isBlank c = true ∨
    ∃ f, fields[barsBefore chars p]? = some f ∧ f.Covers p
  covers_own : ∀ k f, fields[k]? = some f → ∀ p, f.Covers p → barsBefore chars p = k
  columns_lt : fields.Pairwise fun f g => f.column < g.column

/-- The fields of a line and the bars between them cover it up to blanks, each in its place. -/
theorem split_tiling (chars : List Char) : Tiling chars (split chars) := by
  have hstands {f : Field} (hf : f ∈ split chars) : ∃ k, Stands chars k f := by
    obtain ⟨k, hk⟩ := List.getElem?_of_mem hf
    exact ⟨k, split_stands hk⟩
  refine ⟨length_split chars, ?_, ?_, ?_, ?_, ?_, ?_⟩
  · intro f hf
    obtain ⟨k, hk⟩ := hstands hf
    exact hk.trimmed
  · intro f hf
    obtain ⟨k, hk⟩ := hstands hf
    exact ⟨hk.column_pos, hk.slice⟩
  · intro k f hf p hbar
    exact (split_stands hf).bar_range hbar
  · intro p c hc
    by_cases hbar : c = separator
    · exact .inl hbar
    · cases hblank : Text.isBlank c with
      | true => exact .inr (.inl rfl)
      | false =>
        have hlt : barsBefore chars p < (split chars).length := by
          rw [length_split]
          exact Nat.lt_succ_of_le ((List.take_sublist p chars).count_le separator)
        have hf := List.getElem?_eq_getElem hlt
        exact .inr (.inr ⟨_, hf, (split_stands hf).covers hc hbar hblank rfl⟩)
  · intro k f hf p hcovers
    exact (split_stands hf).barsBefore_eq hcovers.1 (Nat.le_of_lt hcovers.2)
  · apply List.pairwise_iff_getElem.mpr
    intro i j hi hj hlt
    have hf := split_stands (List.getElem?_eq_getElem hi)
    have hg := split_stands (List.getElem?_eq_getElem hj)
    have hfirst : barsBefore chars ((split chars)[i].column - 1) = i :=
      hf.barsBefore_eq (by omega) (by have := hf.column_pos; omega)
    have hsecond : barsBefore chars ((split chars)[j].column - 1) = j :=
      hg.barsBefore_eq (by omega) (by have := hg.column_pos; omega)
    by_contra hle
    have hmono : barsBefore chars ((split chars)[j].column - 1) ≤
        barsBefore chars ((split chars)[i].column - 1) := barsBefore_mono (by omega)
    omega

example : split " ab | |c".toList = [⟨['a', 'b'], 2⟩, ⟨[], 7⟩, ⟨['c'], 8⟩] := by decide

end Cpu6502.Field
