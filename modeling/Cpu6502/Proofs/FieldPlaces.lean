import Cpu6502.Proofs.LineGrammar

namespace Cpu6502.Field

/-- The segment of a line behind so many bars, with what comes before it and after it. -/
structure Segment (line : List Char) (bars : Nat) (front segment back : List Char) : Prop where
  eq : line = front ++ segment ++ back
  not_mem : separator ∉ segment
  count_front : front.count separator = bars
  front_bar : front = [] ∨ front.getLast? = some separator
  back_bar : back = [] ∨ back.head? = some separator

/-- The field stands in its segment with nothing but blanks around it, and starts at its column. -/
def Stands (line : List Char) (bars : Nat) (f : Field) : Prop :=
  ∃ front left right back, Segment line bars front (left ++ f.text ++ right) back ∧
    Text.trim (left ++ f.text ++ right) = f.text ∧
    (∀ c ∈ left, Text.isBlank c = true) ∧ (∀ c ∈ right, Text.isBlank c = true) ∧
    f.column = front.length + left.length + 1

theorem Stands.column_pos {line : List Char} {bars : Nat} {f : Field} (h : Stands line bars f) :
    0 < f.column := by
  obtain ⟨_, _, _, _, _, _, _, _, hcolumn⟩ := h
  omega

/-- The line holds the text of the field at its column. -/
theorem Stands.slice {line : List Char} {bars : Nat} {f : Field} (h : Stands line bars f) :
    (line.drop (f.column - 1)).take f.text.length = f.text := by
  obtain ⟨front, left, right, back, hsegment, _, _, _, hcolumn⟩ := h
  have hline : line = (front ++ left) ++ (f.text ++ (right ++ back)) := by
    rw [hsegment.eq]
    simp
  have hstart : f.column - 1 = (front ++ left).length := by
    rw [hcolumn, List.length_append]
    omega
  rw [hstart, hline, List.drop_left, List.take_left]

/-- Segments, each with the bar after it. -/
def closed (segments : List (List Char)) : List Char := segments.flatMap (· ++ [separator])

/-- Segments, each with the bar before it. -/
def opened (segments : List (List Char)) : List Char := segments.flatMap (separator :: ·)

theorem intercalate_cons (segment : List Char) (rest : List (List Char)) :
    [separator].intercalate (segment :: rest) = segment ++ opened rest := by
  induction rest generalizing segment with
  | nil => simp [opened]
  | cons next rest ih => simp [List.intercalate_cons_cons, ih, opened]

theorem intercalate_append (before : List (List Char)) (segment : List Char)
    (after : List (List Char)) :
    [separator].intercalate (before ++ segment :: after) =
      closed before ++ segment ++ opened after := by
  induction before with
  | nil => simp [intercalate_cons, closed]
  | cons first before ih =>
    obtain ⟨next, rest, hrest⟩ := List.exists_cons_of_ne_nil
      (List.append_ne_nil_of_right_ne_nil before (List.cons_ne_nil segment after))
    rw [List.cons_append, hrest, List.intercalate_cons_cons, ← hrest, ih]
    simp [closed]

theorem locate_append (start : Nat) (before after : List (List Char)) :
    locate start (before ++ after) =
      locate start before ++ locate (start + (closed before).length) after := by
  induction before generalizing start with
  | nil => simp [locate, closed]
  | cons segment before ih =>
    have hlength : (closed (segment :: before)).length =
        segment.length + 1 + (closed before).length := by
      simp only [closed, List.flatMap_cons, List.length_append, List.length_singleton]
    rw [List.cons_append, locate, ih, hlength]
    simp only [locate, List.cons_append, Nat.add_assoc]

theorem length_locate (start : Nat) (segments : List (List Char)) :
    (locate start segments).length = segments.length := by
  simpa using congrArg List.length (locate_texts start segments)

theorem segment_splitOn {line segment : List Char} {before after : List (List Char)}
    (h : line.splitOn separator = before ++ segment :: after) :
    Segment line before.length (closed before) segment (opened after) := by
  obtain ⟨hline, hbars⟩ := (Line.splitOn_eq_iff (by simp)).mp h
  refine ⟨?_, hbars segment (by simp), ?_, ?_, ?_⟩
  · rw [hline, intercalate_append]
  · clear h hline
    induction before with
    | nil => rfl
    | cons first before ih =>
      have hfirst : first.count separator = 0 := List.count_eq_zero.mpr (hbars first (by simp))
      have hrest := ih fun s hs => hbars s (List.mem_cons_of_mem first hs)
      simp only [closed, List.flatMap_cons, List.count_append, hfirst] at hrest ⊢
      simp only [hrest, List.count_singleton_self, List.length_cons]
      omega
  · rcases List.eq_nil_or_concat before with rfl | ⟨others, last, rfl⟩
    · exact .inl rfl
    · right
      simp [closed]
  · cases after with
    | nil => exact .inl rfl
    | cons next after => exact .inr rfl

/-- The field of a segment, and the blanks at its two ends. -/
theorem ofSegment_margins (start : Nat) (segment : List Char) :
    ∃ left right, segment = left ++ (ofSegment start segment).text ++ right ∧
      (∀ c ∈ left, Text.isBlank c = true) ∧ (∀ c ∈ right, Text.isBlank c = true) ∧
      (ofSegment start segment).column = start + left.length + 1 := by
  have htrim :
      Text.TrimmedRight Text.isBlank (segment.dropWhile Text.isBlank) (Text.trim segment) :=
    Text.trimRight_eq_iff.mp rfl
  obtain ⟨right, hrest, hright, _⟩ := htrim
  refine ⟨segment.takeWhile Text.isBlank, right, ?_, fun c hc => List.mem_takeWhile_imp hc, hright,
    rfl⟩
  calc segment
    _ = segment.takeWhile Text.isBlank ++ segment.dropWhile Text.isBlank :=
      List.takeWhile_append_dropWhile.symm
    _ = segment.takeWhile Text.isBlank ++ (Text.trim segment ++ right) := by rw [← hrest]
    _ = _ := (List.append_assoc ..).symm

/-- Every field stands where it is said to. -/
theorem split_stands {line : List Char} {bars : Nat} {f : Field}
    (h : (split line)[bars]? = some f) :
    Stands line bars f := by
  obtain ⟨hbars, _⟩ := List.getElem?_eq_some_iff.mp h
  have hlt : bars < (line.splitOn separator).length := by
    rwa [split, length_locate] at hbars
  obtain ⟨before, segment, after, hsplit, rfl⟩ : ∃ before segment after,
      line.splitOn separator = before ++ segment :: after ∧ before.length = bars := by
    have hdrop := List.take_append_drop bars (line.splitOn separator)
    rw [List.drop_eq_getElem_cons hlt] at hdrop
    exact ⟨_, _, _, hdrop.symm, List.length_take_of_le (Nat.le_of_lt hlt)⟩
  rw [split, hsplit, locate_append, List.getElem?_append_right (by rw [length_locate])] at h
  rw [length_locate, Nat.sub_self, Nat.zero_add] at h
  obtain rfl : ofSegment (closed before).length segment = f := Option.some.inj h
  obtain ⟨left, right, hsegment, hleft, hright, hcolumn⟩ :=
    ofSegment_margins (closed before).length segment
  refine ⟨closed before, left, right, opened after, ?_, ?_, hleft, hright, hcolumn⟩
  · rw [← hsegment]
    exact segment_splitOn hsplit
  · rw [← hsegment]
    rfl

end Cpu6502.Field
