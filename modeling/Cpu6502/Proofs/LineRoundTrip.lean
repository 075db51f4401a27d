import Cpu6502.Proofs.DigitText
import Cpu6502.Proofs.LineGrammar
import Mathlib.Data.List.Infix

namespace Cpu6502

/-- Blanks around a field. -/
structure Padding where
  before : List Char
  after : List Char
  before_blank : ∀ c ∈ before, Text.isBlank c = true
  after_blank : ∀ c ∈ after, Text.isBlank c = true

namespace Padding

def around (p : Padding) (text : List Char) : List Char := p.before ++ text ++ p.after

theorem trimmed_around (p : Padding) {text : List Char}
    (hhead : ∀ c ∈ text.head?, Text.isBlank c = false)
    (hlast : ∀ c ∈ text.getLast?, Text.isBlank c = false) :
    Text.Trimmed Text.isBlank (p.around text) text :=
  ⟨p.before, p.after, rfl, p.before_blank, p.after_blank, hhead, hlast⟩

theorem bar_not_mem_around (p : Padding) {text : List Char} (h : '|' ∉ text) :
    '|' ∉ p.around text := by
  have hbar : Text.isBlank '|' ≠ true := by decide
  intro hm
  rcases List.mem_append.mp hm with hm | hm
  · rcases List.mem_append.mp hm with hm | hm
    · exact hbar (p.before_blank _ hm)
    · exact h hm
  · exact hbar (p.after_blank _ hm)

end Padding

namespace Line

/-- A record as a line, its opcode spelled as `hex`. -/
def render (r : Record) (hex : List Char) (label name byte length : Padding) : List Char :=
  label.around r.mode.label.toList ++ '|' :: name.around r.mnemonic.toList ++
    '|' :: byte.around hex ++ '|' :: length.around (Text.decimal r.length).toList

theorem solid_of_range {c : Char} (hlow : 0x21 ≤ c.toNat) (hhigh : c.toNat ≤ 0x7A) :
    Text.isBlank c = false ∧ c ≠ '|' := by
  constructor
  · simp [Text.isBlank]
    omega
  · intro h
    subst h
    exact absurd hhigh (by decide)

theorem MnemonicText.solid {text : List Char} (h : MnemonicText text) :
    ∀ c ∈ text, Text.isBlank c = false ∧ c ≠ '|' := by
  obtain ⟨first, rest, rfl, hfirst, hrest, _⟩ := h
  have hall : ∀ c ∈ first :: rest, Letter c ∨ Digit c := by
    intro c hc
    rcases List.mem_cons.mp hc with hc | hc
    · exact .inl (hc ▸ hfirst)
    · exact hrest c hc
  intro c hc
  have hrange : 0x30 ≤ c.toNat ∧ c.toNat ≤ 0x7A := by
    rcases hall c hc with h | h
    · have := h.range
      omega
    · have := h.range
      omega
  exact solid_of_range (by omega) hrange.2

theorem HexDigit.solid {c : Char} {d : Nat} (h : HexDigit c d) :
    Text.isBlank c = false ∧ c ≠ '|' := by
  have hall : ("0123456789abcdef".toList ++ "0123456789ABCDEF".toList).all
      (fun c => !Text.isBlank c && c != '|') = true := by decide
  have hmem : c ∈ "0123456789abcdef".toList ++ "0123456789ABCDEF".toList := by
    rcases h with h | h
    · exact List.mem_append_left _ (List.mem_of_getElem? h)
    · exact List.mem_append_right _ (List.mem_of_getElem? h)
  simpa using List.all_eq_true.mp hall c hmem

theorem ByteText.solid {text : List Char} {n : Nat} (h : ByteText text n) :
    ∀ c ∈ text, Text.isBlank c = false ∧ c ≠ '|' := by
  cases h with
  | one hd => simpa using hd.solid
  | two hd hd' => simpa using And.intro hd.solid hd'.solid

/-- Blanks behind a text that ends in another character lose some of their end at most. -/
theorem chomp_behind {text : List Char} {last : Char} (after : List Char)
    (hlast : text.getLast? = some last) (hsolid : (last == '\r' || last == '\n') = false) :
    ∃ kept, kept <+: after ∧
      Text.TrimmedRight (fun c => c == '\r' || c == '\n') (text ++ after) (text ++ kept) := by
  obtain ⟨gone, hafter, hgone, hkept⟩ :=
    Text.chomp_eq_iff.mp (rfl : Text.chomp after = Text.chomp after)
  refine ⟨Text.chomp after, ⟨gone, hafter.symm⟩, gone, ?_, hgone, ?_⟩
  · rw [List.append_assoc, ← hafter]
  · intro c hc
    rw [List.getLast?_append] at hc
    cases hl : (Text.chomp after).getLast? with
    | none =>
      simp only [hl, hlast, Option.none_or, Option.mem_def, Option.some.injEq] at hc
      exact hc ▸ hsolid
    | some c' =>
      simp only [hl, Option.some_or, Option.mem_def, Option.some.injEq] at hc
      exact hkept c (by rw [hl, hc]; rfl)

/-- A text without blanks or bars is what remains of it between blanks. -/
theorem trimmed_of_solid (p : Padding) {text : List Char}
    (h : ∀ c ∈ text, Text.isBlank c = false ∧ c ≠ '|') :
    Text.Trimmed Text.isBlank (p.around text) text ∧ '|' ∉ p.around text :=
  ⟨p.trimmed_around (fun c hc => (h c (List.mem_of_mem_head? hc)).1)
      (fun c hc => (h c (List.mem_of_mem_getLast? hc)).1),
    p.bar_not_mem_around fun hm => (h _ hm).2 rfl⟩

/-- The only blanks of a label are inside it. -/
theorem trimmed_label (p : Padding) (mode : Mode) :
    Text.Trimmed Text.isBlank (p.around mode.label.toList) mode.label.toList ∧
      '|' ∉ p.around mode.label.toList := by
  have hlabel : mode.label.toList.head?.all (fun c => !Text.isBlank c) = true ∧
      mode.label.toList.getLast?.all (fun c => !Text.isBlank c) = true ∧
      '|' ∉ mode.label.toList := by
    cases mode <;> decide
  obtain ⟨hhead, hlast, hbar⟩ := hlabel
  simp only [Option.all_eq_true, Bool.not_eq_true'] at hhead hlast
  exact ⟨p.trimmed_around hhead hlast, p.bar_not_mem_around hbar⟩

/-- The length of a mode is a single digit. -/
theorem length_digit (mode : Mode) : ∃ c, (Text.decimal mode.length).toList = [c] ∧
    Text.isBlank c = false ∧ c ≠ '|' ∧ (c == '\r' || c == '\n') = false ∧
    Text.DecimalNumeral [c] mode.length := by
  have hdigit (c : Char) (n : Nat) (hd : Text.decimalDigit? c = some n)
      (hc : Text.isNumeralBlank c = false) : Text.DecimalNumeral [c] n :=
    ⟨[c], [c], [n], ⟨[], [], rfl, by simp, by simp, by simpa using hc, by simpa using hc⟩, .last hd,
      by simp [Text.decimalDigitLimit], .inl ⟨rfl, by simp [Text.valueOf, Text.valueFrom]⟩⟩
  have hlength : mode.length = 1 ∨ mode.length = 2 ∨ mode.length = 3 := by cases mode <;> decide
  rcases hlength with h | h | h
  all_goals rw [h]
  · exact ⟨'1', rfl, rfl, by simp, rfl, hdigit '1' 1 rfl rfl⟩
  · exact ⟨'2', rfl, rfl, by simp, rfl, hdigit '2' 2 rfl rfl⟩
  · exact ⟨'3', rfl, rfl, by simp, rfl, hdigit '3' 3 rfl rfl⟩

theorem render_declares {r : Record} {hex : List Char} {opcode : Nat}
    (hname : MnemonicText r.mnemonic.toList) (hlength : r.length = r.mode.length)
    (hhex : ByteText hex opcode) (label name byte length : Padding) :
    Declares (render r hex label name byte length) r.mode r.mnemonic.toList opcode := by
  obtain ⟨c, hc, hblank, hbar, hbreak, hnumeral⟩ := length_digit r.mode
  have hsolid : ∀ c' ∈ [c], Text.isBlank c' = false ∧ c' ≠ '|' := by simpa using ⟨hblank, hbar⟩
  let front := label.around r.mode.label.toList ++ '|' :: name.around r.mnemonic.toList ++
    '|' :: byte.around hex ++ '|' :: length.before ++ [c]
  have hlast : front.getLast? = some c := List.getLast?_concat
  obtain ⟨kept, ⟨gone, hkept⟩, hchomp⟩ := chomp_behind length.after hlast hbreak
  let length' : Padding :=
    { length with
      after := kept
      after_blank := fun c' hc' => length.after_blank c' (hkept ▸ List.mem_append_left _ hc') }
  have hline : render r hex label name byte length = front ++ length.after := by
    simp [render, front, hlength, hc, Padding.around]
  obtain ⟨ha, hna⟩ := trimmed_label label r.mode
  obtain ⟨hb, hnb⟩ := trimmed_of_solid name hname.solid
  obtain ⟨hx, hnx⟩ := trimmed_of_solid byte hhex.solid
  obtain ⟨hl, hnl⟩ := trimmed_of_solid length' hsolid
  exact ⟨front ++ kept, _, _, _, _, hex, [c], hline ▸ hchomp,
    by simp [front, length', Padding.around], hna, hnb, hnx, hnl, ha, hb, hname, hx, hhex, hl,
    hnumeral⟩

/-- At most two digits that are worth a byte spell it. -/
theorem byteText_of_digits {write : Nat → Char} (hw : ∀ d < 16, HexDigit (write d) d)
    {ds : List Nat} (hne : ds ≠ []) (hlen : ds.length ≤ 2) (hlt : ∀ d ∈ ds, d < 16) :
    ByteText (ds.map write) (Text.valueOf 16 ds) := by
  match ds with
  | [d] =>
    rw [show Text.valueOf 16 [d] = d by simp [Text.valueOf, Text.valueFrom]]
    exact .one (hw d (hlt d (by simp)))
  | [d, e] =>
    rw [show Text.valueOf 16 [d, e] = 16 * d + e by
      simp [Text.valueOf, Text.valueFrom, Nat.mul_comm]]
    exact .two (hw d (hlt d (by simp))) (hw e (hlt e (by simp)))

/-- Every byte is spelled by its digits of either case, and by two with a zero in front. -/
theorem byteText_spellings {n : Nat} (hn : n < 256) :
    ByteText (Text.lowerHex n).toList n ∧ ByteText (Text.upperHex 1 n).toList n ∧
      ByteText (Text.upperHex 2 n).toList n := by
  have hlower : ∀ d < 16, HexDigit (Nat.digitChar d) d := fun d hd =>
    digitValue?_iff.mp (Text.digitValue?_digitChar (by decide) hd).1
  have hupper : ∀ d < 16, HexDigit (Text.upperDigit d) d := fun d hd =>
    digitValue?_iff.mp (Text.digitValue?_digitChar (by decide) hd).2
  have hpadded (width : Nat) (hw : 0 < width) (hw' : width ≤ 2) :
      ByteText (Text.upperHex width n).toList n := by
    obtain ⟨ds, hds, hne, hlt, hvalue, _, hlen⟩ := Text.upperHex_digits hw (n := n)
    rw [hds, ← hvalue]
    exact byteText_of_digits hupper hne (hlen 2 hw' hn) hlt
  refine ⟨?_, hpadded 1 (by decide) (by decide), hpadded 2 (by decide) (by decide)⟩
  · obtain ⟨ds, hds, hne, hlt, hvalue⟩ := Text.toDigits_digits (show 1 < 16 by omega) n
    have hlen := (Nat.length_toDigits_le_iff (show 1 < 16 by omega) (show 0 < 2 by omega)).mpr hn
    rw [hds, List.length_map] at hlen
    have htext : (Text.lowerHex n).toList = ds.map Nat.digitChar := by
      simp [Text.lowerHex, Text.signText, hds]
    rw [htext, ← hvalue]
    exact byteText_of_digits hlower hne hlen hlt

end Line

/-- Lines are read exactly by their grammar, and a line written from a record, however it is spaced
and its byte is spelled, is read as the record. -/
theorem Record.ofLine_exact :
    (∀ (filename : String) (number : Int) (line : List Char) (record : Record),
      ofLine filename number line = .ok record ↔
        ∃ mode mnemonic opcode, Line.Declares line mode mnemonic opcode ∧ opcode ≤ 255 ∧
          record = Line.declared filename number mode mnemonic opcode) ∧
    (∀ (filename : String) (number : Int) (record : Record) (hex : List Char)
      (label name byte length : Padding),
      0 ≤ record.opcode → Line.MnemonicText record.mnemonic.toList →
      record.length = record.mode.length → Line.ByteText hex record.opcode.toNat →
      ofLine filename number (Line.render record hex label name byte length) =
        .ok { record with location := some { filename := filename, line := number } }) ∧
    ∀ n : Nat, n ≤ 255 → Line.ByteText (Text.lowerHex n).toList n ∧
      Line.ByteText (Text.upperHex 1 n).toList n ∧ Line.ByteText (Text.upperHex 2 n).toList n := by
  refine ⟨?_, ?_, ?_⟩
  · intro filename number line record
    constructor
    · intro h
      obtain ⟨mode, mnemonic, opcode, hline, he⟩ := ofLine_declares h
      have := hline.opcode_lt
      exact ⟨mode, mnemonic, opcode, hline, by omega, he⟩
    · intro h
      obtain ⟨mode, mnemonic, opcode, hline, _, rfl⟩ := h
      exact hline.read
  · intro filename number record hex label name byte length hpos hname hlength hhex
    rw [(Line.render_declares hname hlength hhex label name byte length).read, Line.declared,
      String.ofList_toList, ← hlength, Int.toNat_of_nonneg hpos]
  · intro n hn
    exact Line.byteText_spellings (by omega)

/-- A line with blanks outside ASCII, and a carriage return behind its last field. -/
theorem Record.ofLine_exact_spaced :
    let wide : Padding :=
      ⟨['\u00a0', '\t'], ['\u2003', '\r'], by simp [Text.isBlank], by simp [Text.isBlank]⟩
    let none : Padding := ⟨[], [], by simp, by simp⟩
    let ldy : Record := { opcode := 0xB4, mnemonic := "LDY", mode := .zeroPageX, length := 2 }
    Line.render ldy ['b', '4'] wide none wide wide =
      "\u00a0\tZero Page,X\u2003\r|LDY|\u00a0\tb4\u2003\r|\u00a0\t2\u2003\r".toList ∧
    ofLine "table.txt" 7 (Line.render ldy ['b', '4'] wide none wide wide) =
      .ok { ldy with location := some { filename := "table.txt", line := 7 } } ∧
    Line.ByteText (Text.lowerHex 255).toList 255 := by
  intro wide none ldy
  have hname : Line.MnemonicText ldy.mnemonic.toList := Line.isMnemonic_iff.mp (by decide)
  have hhex : Line.ByteText ['b', '4'] ldy.opcode.toNat :=
    Line.byteOfHex?_iff.mp (by decide)
  exact ⟨by decide,
    ofLine_exact.2.1 "table.txt" 7 ldy ['b', '4'] wide none wide wide (by decide) hname rfl hhex,
    (ofLine_exact.2.2 255 (by decide)).1⟩

end Cpu6502
