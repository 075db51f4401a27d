import Cpu6502.Proofs.TableRejection
import Cpu6502.Proofs.TextLines

namespace Cpu6502

/-- A place so many lines further down. -/
def Location.below (lines : Nat) (place : Location) : Location :=
  { place with line := place.line + lines }

def Record.below (lines : Nat) (r : Record) : Record :=
  { r with location := r.location.map (.below lines) }

def TableFault.below (lines : Nat) (error : TableFault) : TableFault :=
  { error with location := error.location.map (.below lines) }

theorem Record.ofLine_below (filename : String) (number : Int) (lines : Nat) (line : List Char) :
    ofLine filename (number + lines) line =
      ((ofLine filename number line).map (.below lines)).mapError (.below lines) := by
  simp only [ofLine]
  split
  · split <;> rfl
  · rfl

/-- A line of blanks alone, or one with a `#` after the blanks at its start. -/
def Line.Idle (line : List Char) : Prop :=
  (∀ c ∈ line, Text.isBlank c = true) ∨
    ∃ before after, line = before ++ '#' :: after ∧ ∀ c ∈ before, Text.isBlank c = true

/-- The first character that is no blank decides. -/
theorem Line.idle_iff {line before after : List Char} {c : Char}
    (hline : line = before ++ c :: after) (hbefore : ∀ d ∈ before, Text.isBlank d = true)
    (hc : Text.isBlank c = false) :
    Idle line ↔ c = '#' := by
  constructor
  · rintro (hblank | ⟨before', after', hcomment, hbefore'⟩)
    · rw [hblank c (by simp [hline])] at hc
      cases hc
    · have hfirst : line.dropWhile Text.isBlank = c :: after :=
        Text.dropWhile_eq_iff.mpr ⟨before, hline, hbefore, fun d hd => Option.some.inj hd ▸ hc⟩
      have hsign : line.dropWhile Text.isBlank = '#' :: after' :=
        Text.dropWhile_eq_iff.mpr
          ⟨before', hcomment, hbefore', fun d hd => Option.some.inj hd ▸ rfl⟩
      exact (List.cons.inj (hfirst.symm.trans hsign)).1
  · rintro rfl
    exact .inr ⟨before, after, hline, hbefore⟩

/-- A line that declares something starts with the label of a mode. -/
theorem Line.Declares.not_idle {line mnemonic : List Char} {mode : Mode} {opcode : Nat}
    (h : Declares line mode mnemonic opcode) : ¬ Idle line := by
  obtain ⟨source, label, name, byte, length, _, _, ⟨ending, hline, _⟩, hsource, _, _, _, _,
    ⟨before, after, hlabel, hbefore, _⟩, _⟩ := h
  obtain ⟨c, rest, hmode, hc, hsign⟩ : ∃ c rest, mode.label.toList = c :: rest ∧
      Text.isBlank c = false ∧ c ≠ '#' := by
    cases mode <;> exact ⟨_, _, rfl, by decide, by decide⟩
  have hfirst : line = before ++ c ::
      (rest ++ after ++ '|' :: name ++ '|' :: byte ++ '|' :: length ++ ending) := by
    rw [hline, hsource, hlabel, hmode]
    simp
  rw [idle_iff hfirst hbefore hc]
  exact hsign

namespace Table

variable {filename : String} {line : List Char}

theorem declares_eq_false_iff : declares line = false ↔ Line.Idle line := by
  have htrim : Text.Trimmed Text.isBlank line (Text.trim line) := Text.trim_eq_iff.mp rfl
  obtain ⟨before, after, hline, hbefore, hafter, hhead, _⟩ := htrim
  unfold declares
  cases htext : Text.trim line with
  | nil =>
    rw [htext, List.append_nil] at hline
    simp only [true_iff]
    left
    intro c hc
    rw [hline] at hc
    exact (List.mem_append.mp hc).elim (hbefore c) (hafter c)
  | cons c rest =>
    rw [htext, List.append_assoc, List.cons_append] at hline
    rw [Line.idle_iff hline hbefore (hhead c (by simp [htext]))]
    exact bne_eq_false_iff_eq

instance : DecidablePred Line.Idle := fun _ => decidable_of_iff _ declares_eq_false_iff

theorem declares_eq_true_iff : declares line = true ↔ ¬ Line.Idle line := by
  rw [← declares_eq_false_iff, Bool.not_eq_false]

/-- The lines that are neither blank nor comments, with their numbers. -/
def content (number : Nat) (lines : List (List Char)) : List (List Char × Nat) :=
  (lines.zipIdx number).filter fun l => decide (¬ Line.Idle l.1)

theorem content_of_idle {rest : List (List Char)} (number : Nat) (h : Line.Idle line) :
    content number (line :: rest) = content (number + 1) rest := by
  simp [content, h]

theorem content_cons {rest : List (List Char)} (number : Nat) (h : ¬ Line.Idle line) :
    content number (line :: rest) = (line, number) :: content (number + 1) rest := by
  simp [content, h]

theorem content_append (number : Nat) (first second : List (List Char)) :
    content number (first ++ second) =
      content number first ++ content (number + first.length) second := by
  rw [content, List.zipIdx_append, List.filter_append]
  rfl

/-- Reading lines is reading the content among them, each line as a record. -/
theorem readLines_eq (filename : String) (number : Nat) (lines : List (List Char)) :
    readLines filename number lines =
      (content number lines).mapM fun l => Record.ofLine filename l.2 l.1 := by
  induction lines generalizing number with
  | nil => rfl
  | cons line rest ih =>
    by_cases hidle : Line.Idle line
    · rw [readLines_of_idle (declares_eq_false_iff.mpr hidle), content_of_idle number hidle, ih]
    · rw [content_cons number hidle, List.mapM_cons, ← ih, readLines,
        if_pos (declares_eq_true_iff.mpr hidle)]
      cases Record.ofLine filename number line with
      | error error => rfl
      | ok record => cases readLines filename (number + 1) rest <;> rfl

theorem readLines_append (number : Nat) (first second : List (List Char)) :
    readLines filename number (first ++ second) = (do
      let records ← readLines filename number first
      let others ← readLines filename (number + first.length) second
      return records ++ others) := by
  simp only [readLines_eq, content_append, List.mapM_append]

theorem readLines_below (number n : Nat) (lines : List (List Char)) :
    readLines filename (number + n) lines =
      ((readLines filename number lines).map (List.map (Record.below n))).mapError
        (TableFault.below n) := by
  induction lines generalizing number with
  | nil => rfl
  | cons line rest ih =>
    have hrest := ih (number + 1)
    rw [Nat.add_right_comm] at hrest
    cases hdeclares : declares line with
    | false => rw [readLines_of_idle hdeclares, readLines_of_idle hdeclares, hrest]
    | true =>
      have hline := Record.ofLine_below filename number n line
      rw [readLines, readLines, if_pos hdeclares, if_pos hdeclares, Nat.cast_add, hline, hrest]
      cases Record.ofLine filename number line with
      | error error => rfl
      | ok record => cases readLines filename (number + 1) rest <;> rfl

theorem ofText_result (filename : String) (text : List Char) :
    (ofText filename text).result = (readLines filename 1 (Text.lines text)).mapError .table := by
  cases hread : readLines filename 1 (Text.lines text) <;> simp [ofText, ofLines, hread] <;> rfl

theorem ofText_ok_iff {text : List Char} {records : List Record} :
    (ofText filename text).result = .ok records ↔
      readLines filename 1 (Text.lines text) = .ok records := ofLines_ok_iff

theorem ofText_error_iff {text : List Char} {fault : Fault} :
    (ofText filename text).result = .error fault ↔
      ∃ error, fault = .table error ∧ readLines filename 1 (Text.lines text) = .error error := by
  rw [ofText_result]
  cases readLines filename 1 (Text.lines text) <;> simp [Except.mapError, eq_comm]

/-- A table in two parts is read part by part, and what the second has to say is as many lines
further down as the first part has. -/
theorem ofText_append (filename : String) {a : List Char} (ha : a = [] ∨ a.getLast? = some '\n')
    (b : List Char) :
    (∀ fault, (ofText filename a).result = .error fault →
      (ofText filename (a ++ b)).result = .error fault) ∧
    (∀ records fault, (ofText filename a).result = .ok records →
      (ofText filename b).result = .error fault → ∃ error, fault = .table error ∧
        (ofText filename (a ++ b)).result =
          .error (.table (error.below (Text.lines a).length))) ∧
    (∀ records others, (ofText filename a).result = .ok records →
      (ofText filename b).result = .ok others →
      (ofText filename (a ++ b)).result =
        .ok (records ++ others.map (Record.below (Text.lines a).length))) ∧
    (∀ text records, (ofText filename text).result = .ok records →
      List.Forall₂ (fun l record => Record.ofLine filename l.2 l.1 = .ok record ∧
          record.location = some { filename := filename, line := (l.2 : Nat), column := 1 })
        (((Text.lines text).zipIdx 1).filter fun l => decide (¬ Line.Idle l.1)) records) ∧
    ∀ (number : Int) (line : List Char) (record : Record),
      Record.ofLine filename number line = .ok record → ¬ Line.Idle line := by
  have hparts : readLines filename 1 (Text.lines (a ++ b)) = (do
      let records ← readLines filename 1 (Text.lines a)
      let others ← ((readLines filename 1 (Text.lines b)).map
        (List.map (Record.below (Text.lines a).length))).mapError
          (TableFault.below (Text.lines a).length)
      return records ++ others) := by
    rw [Text.lines_append ha, readLines_append, readLines_below]
  simp only [ofText_ok_iff, ofText_error_iff, hparts]
  refine ⟨?_, ?_, ?_, ?_, ?_⟩
  · rintro _ ⟨error, rfl, hfirst⟩
    exact ⟨error, rfl, by rw [hfirst]; rfl⟩
  · rintro records _ hfirst ⟨error, rfl, hsecond⟩
    exact ⟨error, rfl, _, rfl, by rw [hfirst, hsecond]; rfl⟩
  · intro records others hfirst hsecond
    rw [hfirst, hsecond]
    rfl
  · intro text records hread
    rw [readLines_eq, mapM_ok_iff] at hread
    refine hread.imp fun l record hrecord => ⟨hrecord, ?_⟩
    obtain ⟨mode, mnemonic, opcode, _, rfl⟩ := Record.ofLine_declares hrecord
    rfl
  · intro number line record hrecord
    obtain ⟨mode, mnemonic, opcode, hline, _⟩ := Record.ofLine_declares hrecord
    exact hline.not_idle

/-- A comment counts as a line, and a misspelt label keeps its place in the second part. -/
theorem ofText_append_misspelt :
    let a := "# jumps\nAbsolute|JMP|4C|3\n".toList
    let b := "\n  Absolut|JSR|20|3".toList
    let error : TableFault :=
      { cause := .unknownMode "Absolut" ["Absolute"]
        location := some { filename := "table.txt", line := 2, column := 3 }
        sourceLine := some "  Absolut|JSR|20|3" }
    a.getLast? = some '\n' ∧ (ofText "table.txt" b).result = .error (.table error) ∧
    (ofText "table.txt" (a ++ b)).result = .error (.table (error.below 2)) ∧
    (error.below 2).location = some { filename := "table.txt", line := 4, column := 3 } := by
  intro a b error
  have hend : a.getLast? = some '\n' := by decide
  have hsecond : (ofText "table.txt" b).result = .error (.table error) := by decide +kernel
  obtain ⟨records, hfirst⟩ : ∃ records, (ofText "table.txt" a).result = .ok records :=
    except_isOk_iff.mp (by decide +kernel)
  obtain ⟨_, hparts, _⟩ := ofText_append "table.txt" (.inr hend) b
  obtain ⟨error', herror, hboth⟩ := hparts records _ hfirst hsecond
  cases herror
  exact ⟨hend, hsecond, hboth, rfl⟩

end Table

end Cpu6502
