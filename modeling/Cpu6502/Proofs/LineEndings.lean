import Cpu6502.Proofs.TableParts

namespace Cpu6502

variable {t : List Char}

namespace Text

/-- The characters of an end of a line are blanks, and no line is left with them at its end. -/
theorem Terminator.mem (ht : Terminator t) {c : Char} (hc : c ∈ t) :
    isBlank c = true ∧ (c == '\r' || c == '\n') = true := by
  have hend : c = '\r' ∨ c = '\n' := by
    cases ht <;> simp_all
  rcases hend with rfl | rfl <;> decide

theorem trim_append (ht : Terminator t) (line : List Char) : trim (line ++ t) = trim line := by
  obtain ⟨before, after, hline, hbefore, hafter, hends⟩ := trim_eq_iff.mp (Eq.refl (trim line))
  refine trim_eq_iff.mpr ⟨before, after ++ t, ?_, hbefore, ?_, hends⟩
  · rw [← List.append_assoc, ← hline]
  · intro c hc
    exact (List.mem_append.mp hc).elim (hafter c) fun hc => (ht.mem hc).1

theorem chomp_append (ht : Terminator t) (line : List Char) : chomp (line ++ t) = chomp line := by
  obtain ⟨after, hline, hafter, hend⟩ := chomp_eq_iff.mp (Eq.refl (chomp line))
  refine chomp_eq_iff.mpr ⟨after ++ t, ?_, ?_, hend⟩
  · rw [← List.append_assoc, ← hline]
  · intro c hc
    exact (List.mem_append.mp hc).elim (hafter c) fun hc => (ht.mem hc).2

end Text

theorem Record.ofLine_append (ht : Text.Terminator t) (filename : String) (number : Int)
    (line : List Char) : ofLine filename number (line ++ t) = ofLine filename number line := by
  simp only [ofLine, Text.chomp_append ht]

namespace Table

theorem declares_append (ht : Text.Terminator t) (line : List Char) :
    declares (line ++ t) = declares line := by
  simp only [declares, Text.trim_append ht]

variable {filename : String}

theorem readLines_terminated (ht : Text.Terminator t) (number : Nat) (lines : List (List Char)) :
    readLines filename number (lines.map (· ++ t)) = readLines filename number lines := by
  induction lines generalizing number with
  | nil => rfl
  | cons line rest ih =>
    rw [List.map_cons, readLines, readLines, declares_append ht, Record.ofLine_append ht, ih]

/-- An empty line at the end declares nothing. -/
theorem readLines_empty_end (filename : String) (number : Nat) (lines : List (List Char)) :
    readLines filename number (lines ++ [[]]) = readLines filename number lines := by
  rw [readLines_append]
  cases readLines filename number lines with
  | error error => rfl
  | ok records =>
    change Except.ok (records ++ []) = _
    rw [List.append_nil]

theorem ofLines_congr {lines others : List (List Char)}
    (h : readLines filename 1 lines = readLines filename 1 others) :
    ofLines filename lines = ofLines filename others := by
  rw [ofLines, ofLines, h]

/-- Lines are read alike one by one, with an end each, and from a text in which all end alike. -/
theorem ofLines_line_ends (filename : String) {lines : List (List Char)}
    (h : ∀ line ∈ lines, ∀ c ∈ Text.lineBreaks, c ∉ line) (ht : Text.Terminator t) :
    ofLines filename (lines.map (· ++ t)) = ofLines filename lines ∧
    ofText filename (lines.flatMap (· ++ t)) = ofLines filename lines ∧
    ofText filename (t.intercalate lines) = ofLines filename lines := by
  have hlines : ∀ line ∈ lines, ∀ c ∈ line, Text.isLineBreak c = false :=
    fun line hline => Text.no_break_iff.mpr (h line hline)
  refine ⟨ofLines_congr (readLines_terminated ht 1 lines), ?_, ?_⟩
  · rw [ofText, Text.lines_flatMap ht hlines]
  · apply ofLines_congr
    rcases Text.lines_intercalate ht hlines with hsame | hend
    · rw [← hsame]
    · have hread := readLines_empty_end filename 1 (Text.lines (t.intercalate lines))
      rw [← hend] at hread
      exact hread.symm

/-- A table with a comment, an empty line at its end and a mode that is misspelt between them. -/
theorem ofLines_line_ends_refused :
    let lines := ["# jumps".toList, "Absolut|JSR|20|3".toList, []]
    let error : TableFault :=
      { cause := .unknownMode "Absolut" ["Absolute"]
        location := some { filename := "table.txt", line := 2, column := 1 }
        sourceLine := some "Absolut|JSR|20|3" }
    (∀ line ∈ lines, ∀ c ∈ Text.lineBreaks, c ∉ line) ∧ Text.Terminator ['\r'] ∧
    (ofLines "table.txt" lines).result = .error (.table error) ∧
    (ofLines "table.txt" (lines.map (· ++ ['\r']))).result = .error (.table error) ∧
    (ofText "table.txt" "# jumps\rAbsolut|JSR|20|3\r\r".toList).result = .error (.table error) ∧
    (ofText "table.txt" "# jumps\rAbsolut|JSR|20|3\r".toList).result = .error (.table error) := by
  intro lines error
  have hplain : ∀ line ∈ lines, ∀ c ∈ Text.lineBreaks, c ∉ line := by
    simp [lines, Text.lineBreaks]
  have hrefused : (ofLines "table.txt" lines).result = .error (.table error) := by decide +kernel
  obtain ⟨hone, hended, hjoined⟩ := ofLines_line_ends "table.txt" hplain .carriageReturn
  refine ⟨hplain, .carriageReturn, hrefused, ?_, ?_, ?_⟩
  · rw [hone, hrefused]
  · rw [← hrefused, ← hended]
    rfl
  · rw [← hrefused, ← hjoined]
    rfl

end Table

end Cpu6502
