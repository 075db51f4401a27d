import Cpu6502.Text.Line
import Mathlib.Data.List.Basic

namespace Cpu6502.Text

/-- The characters that break a line. -/
def lineBreaks : List Char :=
  ['\n', '\r', '\x0b', '\x0c', '\x1c', '\x1d', '\x1e', '\u0085', '\u2028', '\u2029']

theorem isLineBreak_iff {c : Char} : isLineBreak c = true ↔ c ∈ lineBreaks := by
  have hcode (d : Char) : c = d ↔ c.toNat = d.toNat := Char.toNat_inj.symm
  simp only [isLineBreak, lineBreaks, List.mem_cons, List.not_mem_nil, hcode, Char.reduceToNat,
    or_false, Bool.or_eq_true, Bool.and_eq_true, decide_eq_true_eq, beq_iff_eq]
  omega

theorem no_break_iff {line : List Char} :
    (∀ c ∈ line, isLineBreak c = false) ↔ ∀ c ∈ lineBreaks, c ∉ line := by
  constructor
  · intro h c hbreak hc
    have := h c hc
    rw [isLineBreak_iff.mpr hbreak] at this
    cases this
  · intro h c hc
    rw [← Bool.not_eq_true, isLineBreak_iff]
    exact fun hbreak => h c hbreak hc

theorem lines_cons_of_break {c : Char} (h : isLineBreak c = true) {cs : List Char}
    (hpair : c = '\r' → cs.head? ≠ some '\n') : lines (c :: cs) = [] :: lines cs := by
  rw [lines, if_pos h]
  rintro rest rfl rfl
  exact hpair rfl rfl

theorem lines_cons {c : Char} (h : isLineBreak c = false) (cs : List Char) :
    lines (c :: cs) = extendFirst c (lines cs) := by
  rw [lines, if_neg (by simp [h])]
  rintro rest rfl rfl
  exact absurd h (by decide)

theorem lines_lineFeed (cs : List Char) : lines ('\n' :: cs) = [] :: lines cs :=
  lines_cons_of_break (by decide) (fun h => absurd h (by decide))

theorem lines_pair (cs : List Char) : lines ('\r' :: '\n' :: cs) = [] :: lines cs := by
  rw [lines]

theorem extendFirst_append {first rest : List (List Char)} (c : Char) (h : first ≠ []) :
    extendFirst c (first ++ rest) = extendFirst c first ++ rest := by
  cases first with
  | nil => exact absurd rfl h
  | cons line others => rfl

theorem lines_ne_nil {cs : List Char} (h : cs ≠ []) : lines cs ≠ [] := by
  fun_cases lines cs with
  | case1 => exact absurd rfl h
  | case2 rest => simp
  | case3 c rest _ hbreak => simp
  | case4 c rest _ hplain =>
    cases lines rest <;> simp [extendFirst]

/-- What comes after a line feed has lines of its own. The line feed itself may be the second half
of a break. -/
theorem lines_lineFeed_append (a b : List Char) :
    lines (a ++ '\n' :: b) = lines (a ++ ['\n']) ++ lines b := by
  fun_induction lines a with
  | case1 =>
    simp [lines_lineFeed, lines]
  | case2 rest ih => simp only [List.cons_append, lines_pair, ih]
  | case3 c rest hpair hbreak ih =>
    simp only [List.cons_append]
    by_cases hend : c = '\r' ∧ rest = []
    · obtain ⟨rfl, rfl⟩ := hend
      simp only [List.nil_append, lines_pair]
      rfl
    · have hhead (tail : List Char) : c = '\r' → (rest ++ '\n' :: tail).head? ≠ some '\n' := by
        rintro rfl
        cases rest with
        | nil => exact absurd ⟨rfl, rfl⟩ hend
        | cons d rest =>
          intro hd
          exact hpair rest rfl (by rw [Option.some.inj hd])
      rw [lines_cons_of_break hbreak (hhead b), lines_cons_of_break hbreak (hhead []), ih]
      rfl
  | case4 c rest _ hplain ih =>
    rw [Bool.not_eq_true] at hplain
    simp only [List.cons_append]
    rw [lines_cons hplain, lines_cons hplain, ih, extendFirst_append c (lines_ne_nil (by simp))]

/-- A text that is empty or ends in a line feed is split on its own. -/
theorem lines_append {a : List Char} (h : a = [] ∨ a.getLast? = some '\n') (b : List Char) :
    lines (a ++ b) = lines a ++ lines b := by
  rcases h with rfl | h
  · rfl
  · obtain ⟨front, rfl⟩ := List.getLast?_eq_some_iff.mp h
    rw [List.append_assoc]
    exact lines_lineFeed_append front b

/-- What a line may end with. -/
inductive Terminator : List Char → Prop where
  | lineFeed : Terminator ['\n']
  | pair : Terminator ['\r', '\n']
  | carriageReturn : Terminator ['\r']

variable {t line : List Char}

theorem lines_no_break_append (h : ∀ c ∈ line, isLineBreak c = false) {rest : List Char}
    {others : List (List Char)} (hrest : lines rest = [] :: others) :
    lines (line ++ rest) = line :: others := by
  induction line with
  | nil => exact hrest
  | cons c line ih =>
    obtain ⟨hc, hline⟩ := List.forall_mem_cons.mp h
    rw [List.cons_append, lines_cons hc, ih hline]
    rfl

theorem lines_no_break (h : ∀ c ∈ line, isLineBreak c = false) :
    lines line = if line = [] then [] else [line] := by
  induction line with
  | nil => rfl
  | cons c line ih =>
    obtain ⟨hc, hline⟩ := List.forall_mem_cons.mp h
    rw [lines_cons hc, ih hline]
    cases line <;> rfl

theorem lineFeed_not_mem (h : ∀ c ∈ line, isLineBreak c = false) : '\n' ∉ line :=
  fun hm => absurd (h '\n' hm) (by decide)

/-- A line ends with its terminator, unless that is a carriage return before a line feed. -/
theorem lines_terminated (ht : Terminator t) (h : ∀ c ∈ line, isLineBreak c = false)
    {rest : List Char} (hrest : t = ['\r'] → '\n' ∉ rest) :
    lines (line ++ (t ++ rest)) = line :: lines rest := by
  apply lines_no_break_append h
  cases ht with
  | lineFeed => exact lines_lineFeed rest
  | pair => exact lines_pair rest
  | carriageReturn =>
    exact lines_cons_of_break (by decide) fun _ hhead => hrest rfl (List.mem_of_head? hhead)

/-- Lines that end alike are read back. -/
theorem lines_flatMap (ht : Terminator t) {ls : List (List Char)}
    (h : ∀ line ∈ ls, ∀ c ∈ line, isLineBreak c = false) :
    lines (ls.flatMap (· ++ t)) = ls := by
  induction ls with
  | nil => rfl
  | cons line ls ih =>
    obtain ⟨hline, hls⟩ := List.forall_mem_cons.mp h
    have hrest : t = ['\r'] → '\n' ∉ ls.flatMap (· ++ t) := by
      rintro rfl hm
      obtain ⟨other, hother, hm⟩ := List.mem_flatMap.mp hm
      rcases List.mem_append.mp hm with hm | hm
      · exact lineFeed_not_mem (hls other hother) hm
      · exact absurd hm (by decide)
    rw [List.flatMap_cons, List.append_assoc, lines_terminated ht hline hrest, ih hls]

theorem mem_intercalate {α : Type} {separator : List α} {groups : List (List α)} {x : α}
    (h : x ∈ separator.intercalate groups) : x ∈ separator ∨ ∃ group ∈ groups, x ∈ group := by
  induction groups with
  | nil => simp at h
  | cons group rest ih =>
    cases rest with
    | nil => exact .inr ⟨group, by simp, by simpa using h⟩
    | cons next rest =>
      rw [List.intercalate_cons_cons, List.mem_append, List.mem_append] at h
      rcases h with (h | h) | h
      · exact .inr ⟨group, by simp, h⟩
      · exact .inl h
      · rcases ih h with h | ⟨other, hm, h⟩
        · exact .inl h
        · exact .inr ⟨other, List.mem_cons_of_mem _ hm, h⟩

/-- Lines that are joined are read back, but for an empty one at the end. -/
theorem lines_intercalate (ht : Terminator t) {ls : List (List Char)}
    (h : ∀ line ∈ ls, ∀ c ∈ line, isLineBreak c = false) :
    ls = lines (t.intercalate ls) ∨ ls = lines (t.intercalate ls) ++ [[]] := by
  induction ls with
  | nil => exact .inl rfl
  | cons line ls ih =>
    obtain ⟨hline, hls⟩ := List.forall_mem_cons.mp h
    cases ls with
    | nil =>
      rw [List.intercalate_singleton, lines_no_break hline]
      split
      · rename_i hempty
        exact .inr (by rw [hempty]; rfl)
      · exact .inl rfl
    | cons next ls =>
      have hrest : t = ['\r'] → '\n' ∉ t.intercalate (next :: ls) := by
        rintro rfl hm
        rcases mem_intercalate hm with hm | ⟨other, hother, hm⟩
        · exact absurd hm (by decide)
        · exact lineFeed_not_mem (hls other hother) hm
      rw [List.intercalate_cons_cons, List.append_assoc, lines_terminated ht hline hrest]
      rcases ih hls with hsame | hsame
      · exact .inl (congrArg (line :: ·) hsame)
      · exact .inr (congrArg (line :: ·) hsame)

end Cpu6502.Text
