import Cpu6502.Proofs.NumeralGrammar
import Cpu6502.Table.Line
import Mathlib.Data.List.Forall2

namespace Cpu6502

theorem Mode.ofLabel?_eq_some_iff {text : String} {mode : Mode} :
    ofLabel? text = some mode ↔ text = mode.label := by
  constructor
  · intro h
    have := List.find?_some h
    exact (beq_iff_eq.mp this).symm
  · intro h
    subst h
    exact ofLabel?_label mode

theorem except_bind_ok {ε α β : Type} {first : Except ε α} {next : α → Except ε β} {b : β} :
    first >>= next = .ok b ↔ ∃ a, first = .ok a ∧ next a = .ok b := by
  cases first <;> simp [bind, Except.bind]

theorem except_bind_error {ε α β : Type} {first : Except ε α} {next : α → Except ε β} {e : ε} :
    first >>= next = .error e ↔ first = .error e ∨ ∃ a, first = .ok a ∧ next a = .error e := by
  cases first <;> simp [bind, Except.bind]

/-- Lists that are related member by member leave no member out. -/
theorem exists_of_forall₂ {α β : Type} {R : α → β → Prop} {xs : List α} {ys : List β}
    (h : List.Forall₂ R xs ys) : ∀ x ∈ xs, ∃ y, R x y := by
  induction h with
  | nil => simp
  | cons hxy _ ih => exact List.forall_mem_cons.mpr ⟨⟨_, hxy⟩, ih⟩

namespace Line

/-- A letter of ASCII. -/
def Letter (c : Char) : Prop := 'a' ≤ c ∧ c ≤ 'z' ∨ 'A' ≤ c ∧ c ≤ 'Z'

/-- A decimal digit of ASCII. -/
def Digit (c : Char) : Prop := '0' ≤ c ∧ c ≤ '9'

theorem Letter.range {c : Char} (h : Letter c) : 0x41 ≤ c.toNat ∧ c.toNat ≤ 0x7A := by
  simp only [Letter, Char.le_def, UInt32.le_iff_toNat_le] at h
  change (97 ≤ c.toNat ∧ c.toNat ≤ 122) ∨ (65 ≤ c.toNat ∧ c.toNat ≤ 90) at h
  omega

theorem Digit.range {c : Char} (h : Digit c) : 0x30 ≤ c.toNat ∧ c.toNat ≤ 0x39 := by
  simp only [Digit, Char.le_def, UInt32.le_iff_toNat_le] at h
  exact h

/-- One to three letters or digits, a letter first. -/
def MnemonicText (text : List Char) : Prop :=
  ∃ c rest, text = c :: rest ∧ Letter c ∧ (∀ d ∈ rest, Letter d ∨ Digit d) ∧ rest.length ≤ 2

/-- A hexadecimal digit of either case, and what it is worth. -/
def HexDigit (c : Char) (d : Nat) : Prop :=
  "0123456789abcdef".toList[d]? = some c ∨ "0123456789ABCDEF".toList[d]? = some c

/-- One or two hexadecimal digits, and the byte they spell. -/
inductive ByteText : List Char → Nat → Prop where
  | one {c : Char} {d : Nat} (hd : HexDigit c d) : ByteText [c] d
  | two {c c' : Char} {d d' : Nat} (hd : HexDigit c d) (hd' : HexDigit c' d') :
      ByteText [c, c'] (16 * d + d')

/-- What the four segments between the bars of a line declare. -/
def Declares (line : List Char) (mode : Mode) (mnemonic : List Char) (opcode : Nat) : Prop :=
  ∃ source label name byte length hex numeral,
    Text.TrimmedRight (fun c => c == '\r' || c == '\n') line source ∧
    source = label ++ '|' :: name ++ '|' :: byte ++ '|' :: length ∧
    '|' ∉ label ∧ '|' ∉ name ∧ '|' ∉ byte ∧ '|' ∉ length ∧
    Text.Trimmed Text.isBlank label mode.label.toList ∧
    Text.Trimmed Text.isBlank name mnemonic ∧ MnemonicText mnemonic ∧
    Text.Trimmed Text.isBlank byte hex ∧ ByteText hex opcode ∧
    Text.Trimmed Text.isBlank length numeral ∧ Text.DecimalNumeral numeral mode.length

theorem isAlpha_iff {c : Char} : c.isAlpha = true ↔ Letter c := by
  have hupper : c.isUpper = true ↔ 'A' ≤ c ∧ c ≤ 'Z' := by
    change decide ('A'.val ≤ c.val ∧ c.val ≤ 'Z'.val) = true ↔ _
    rw [decide_eq_true_eq]
    rfl
  have hlower : c.isLower = true ↔ 'a' ≤ c ∧ c ≤ 'z' := by
    change (decide ('a'.val ≤ c.val) && decide (c.val ≤ 'z'.val)) = true ↔ _
    rw [Bool.and_eq_true, decide_eq_true_eq, decide_eq_true_eq]
    rfl
  change (c.isUpper || c.isLower) = true ↔ _
  rw [Bool.or_eq_true, hupper, hlower, Letter, or_comm]

theorem isAlphanum_iff {c : Char} : c.isAlphanum = true ↔ Letter c ∨ Digit c := by
  simp [Char.isAlphanum, isAlpha_iff, Char.isDigit, Digit, Char.le_def, UInt32.le_iff_toNat_le]

theorem isMnemonic_iff {text : List Char} : isMnemonic text = true ↔ MnemonicText text := by
  cases text with
  | nil => simp [isMnemonic, MnemonicText]
  | cons c rest =>
    simp only [isMnemonic, Bool.and_eq_true, List.all_eq_true, isAlpha_iff, isAlphanum_iff,
      decide_eq_true_eq, MnemonicText]
    constructor
    · intro h
      obtain ⟨⟨hc, hrest⟩, hlen⟩ := h
      exact ⟨c, rest, rfl, hc, hrest, hlen⟩
    · intro h
      obtain ⟨_, _, he, hc, hrest, hlen⟩ := h
      cases he
      exact ⟨⟨hc, hrest⟩, hlen⟩

theorem HexDigit.lt {c : Char} {d : Nat} (h : HexDigit c d) : d < 16 := by
  rcases h with h | h
  all_goals exact (List.getElem?_eq_some_iff.mp h).1

theorem digitValue?_iff {c : Char} {d : Nat} : Text.digitValue? 16 c = some d ↔ HexDigit c d := by
  constructor
  · intro h
    have hascii : ∀ n < 128, ∀ d ∈ Text.digitValue? 16 (Char.ofNat n),
        "0123456789abcdef".toList[d]? = some (Char.ofNat n) ∨
        "0123456789ABCDEF".toList[d]? = some (Char.ofNat n) := by decide
    have hc : c.toNat < 128 := by
      by_contra hc
      rw [Text.digitValue?_of_le 16 (by omega)] at h
      cases h
    have := hascii c.toNat hc d (by rw [Char.ofNat_toNat]; exact h)
    rwa [Char.ofNat_toNat] at this
  · intro h
    have hd := h.lt
    rcases h with h | h
    all_goals
      interval_cases d
      all_goals
        cases Option.some.inj h
        decide

theorem byteOfHex?_iff {text : List Char} {n : Nat} :
    byteOfHex? text = some n ↔ ByteText text n := by
  constructor
  · intro h
    match text with
    | [] => cases h
    | [c] => exact .one (digitValue?_iff.mp h)
    | [c, c'] =>
      simp only [byteOfHex?] at h
      split at h
      · rename_i d d' hd hd'
        cases h
        exact .two (digitValue?_iff.mp hd) (digitValue?_iff.mp hd')
      · cases h
    | _ :: _ :: _ :: _ => cases h
  · intro h
    rcases h with hd | ⟨hd, hd'⟩
    · exact digitValue?_iff.mpr hd
    · simp [byteOfHex?, digitValue?_iff.mpr hd, digitValue?_iff.mpr hd']

theorem ByteText.lt {text : List Char} {n : Nat} (h : ByteText text n) : n < 256 := by
  cases h with
  | one hd => have := hd.lt; omega
  | two hd hd' => have := hd.lt; have := hd'.lt; omega

theorem Declares.opcode_lt {line mnemonic : List Char} {mode : Mode} {opcode : Nat}
    (h : Declares line mode mnemonic opcode) : opcode < 256 := by
  obtain ⟨_, _, _, _, _, hex, _, _, _, _, _, _, _, _, _, _, _, hhex, _⟩ := h
  exact hhex.lt

theorem Declares.mnemonicText {line mnemonic : List Char} {mode : Mode} {opcode : Nat}
    (h : Declares line mode mnemonic opcode) : MnemonicText mnemonic := by
  obtain ⟨_, _, _, _, _, _, _, _, _, _, _, _, _, _, _, hmnemonic, _⟩ := h
  exact hmnemonic

theorem readMode_ok_iff {f : Field} {mode : Mode} :
    readMode f = .ok mode ↔ f.text = mode.label.toList := by
  have htext : f.text = mode.label.toList ↔ Mode.ofLabel? (String.ofList f.text) = some mode := by
    rw [Mode.ofLabel?_eq_some_iff, ← String.toList_inj, String.toList_ofList]
  rw [htext]
  simp only [readMode]
  cases Mode.ofLabel? (String.ofList f.text) <;> simp

theorem readMnemonic_ok_iff {f : Field} {name : String} :
    readMnemonic f = .ok name ↔ MnemonicText f.text ∧ name = .ofList f.text := by
  rw [← isMnemonic_iff, eq_comm (a := name)]
  simp only [readMnemonic]
  cases isMnemonic f.text <;> simp

theorem readOpcode_ok_iff {f : Field} {n : Nat} :
    readOpcode f = .ok n ↔ ByteText f.text n := by
  rw [← byteOfHex?_iff]
  simp only [readOpcode]
  cases byteOfHex? f.text <;> simp

theorem readLength_ok_iff {f : Field} {n : Int} :
    readLength f = .ok n ↔ Text.DecimalNumeral f.text n ∧ 1 ≤ n ∧ n ≤ 3 := by
  rw [← Text.readDecimal_eq_some_iff]
  simp only [readLength]
  cases hn : Text.readDecimal f.text with
  | none => simp
  | some m =>
    simp only [Option.some.injEq]
    split
    · rw [Except.ok.injEq]
      constructor
      · intro h
        subst h
        exact ⟨rfl, ‹_›⟩
      · intro h
        exact h.1
    · constructor
      · intro h
        cases h
      · intro h
        obtain ⟨rfl, h⟩ := h
        contradiction

/-- The check against the length of the mode makes that of the range superfluous. -/
theorem readFields_ok_iff {label name byte length : Field} {mode : Mode} {mnemonic : String}
    {opcode : Nat} {size : Int} :
    readFields label name byte length = .ok (mode, mnemonic, opcode, size) ↔
      label.text = mode.label.toList ∧ (MnemonicText name.text ∧ mnemonic = .ofList name.text) ∧
      ByteText byte.text opcode ∧ Text.DecimalNumeral length.text size ∧ size = mode.length := by
  have hrange : 1 ≤ (mode.length : Int) ∧ (mode.length : Int) ≤ 3 := by cases mode <;> decide
  simp only [readFields, except_bind_ok, readMode_ok_iff, readMnemonic_ok_iff, readOpcode_ok_iff,
    readLength_ok_iff]
  constructor
  · intro h
    obtain ⟨_, hmode, _, hname, _, hbyte, _, hlength, h⟩ := h
    split at h
    · rename_i hsize
      cases h
      exact ⟨hmode, hname, hbyte, hlength.1, hsize⟩
    · cases h
  · intro h
    obtain ⟨hmode, hname, hbyte, hlength, rfl⟩ := h
    exact ⟨mode, hmode, mnemonic, hname, opcode, hbyte, _, ⟨hlength, hrange⟩,
      by rw [if_pos rfl]; rfl⟩

theorem not_mem_of_mem_splitOn {α : Type} [DecidableEq α] {x : α} {cs w : List α}
    (h : w ∈ cs.splitOn x) : x ∉ w := by
  induction cs generalizing w with
  | nil =>
    rw [List.splitOn_nil, List.mem_singleton] at h
    simp [h]
  | cons c cs ih =>
    rw [List.splitOn_cons_eq_if_modifyHead] at h
    split at h
    · rcases List.mem_cons.mp h with h | h
      · simp [h]
      · exact ih h
    · rename_i hc
      cases hs : cs.splitOn x with
      | nil => simp at hs
      | cons first others =>
        rw [hs, List.modifyHead_cons, List.mem_cons] at h
        rcases h with h | h
        · rw [h, List.mem_cons, not_or]
          exact ⟨fun he => hc (by simp [he]), ih (by simp [hs])⟩
        · exact ih (by simp [hs, h])

/-- Splitting a text undoes joining segments without the separator, and nothing else does. -/
theorem splitOn_eq_iff {x : Char} {cs : List Char} {segments : List (List Char)}
    (hs : segments ≠ []) :
    cs.splitOn x = segments ↔ cs = [x].intercalate segments ∧ ∀ s ∈ segments, x ∉ s := by
  constructor
  · intro h
    subst h
    exact ⟨by simp, fun s hs => not_mem_of_mem_splitOn hs⟩
  · intro h
    rw [h.1]
    exact List.splitOn_intercalate x h.2 hs

end Line

theorem Field.locate_texts (start : Nat) (segments : List (List Char)) :
    (locate start segments).map Field.text = segments.map Text.trim := by
  induction segments generalizing start with
  | nil => rfl
  | cons segment rest ih => simp [locate, ofSegment, ih]

/-- Four fields are the four trimmed segments between three bars. -/
theorem Field.split_four {line : List Char} {label name byte length : Field}
    (h : split line = [label, name, byte, length]) :
    ∃ a b c d, line.splitOn '|' = [a, b, c, d] ∧ Text.trim a = label.text ∧
      Text.trim b = name.text ∧ Text.trim c = byte.text ∧ Text.trim d = length.text := by
  have htexts := locate_texts 0 (line.splitOn separator)
  rw [show locate 0 (line.splitOn separator) = split line from rfl, h] at htexts
  obtain ⟨a, rest, hs, ha, htexts⟩ := List.map_eq_cons_iff.mp htexts.symm
  obtain ⟨b, rest, rfl, hb, htexts⟩ := List.map_eq_cons_iff.mp htexts
  obtain ⟨c, rest, rfl, hc, htexts⟩ := List.map_eq_cons_iff.mp htexts
  obtain ⟨d, rest, rfl, hd, htexts⟩ := List.map_eq_cons_iff.mp htexts
  rw [List.map_nil, List.map_eq_nil_iff] at htexts
  subst htexts
  exact ⟨a, b, c, d, hs, ha, hb, hc, hd⟩

/-- What a line that declares something is read as. -/
def Line.declared (filename : String) (number : Int) (mode : Mode) (mnemonic : List Char)
    (opcode : Nat) : Record :=
  { opcode := opcode
    mnemonic := .ofList mnemonic
    mode := mode
    length := mode.length
    location := some { filename := filename, line := number, column := 1 } }

theorem Record.ofLine_declares {filename : String} {number : Int} {line : List Char}
    {record : Record} (h : ofLine filename number line = .ok record) :
    ∃ mode mnemonic opcode, Line.Declares line mode mnemonic opcode ∧
      record = Line.declared filename number mode mnemonic opcode := by
  simp only [ofLine] at h
  split at h
  · rename_i label name byte length hfields
    split at h
    · rename_i mode mnemonic opcode size hread
      obtain ⟨hmode, ⟨hname, rfl⟩, hbyte, hlength, rfl⟩ := Line.readFields_ok_iff.mp hread
      obtain ⟨a, b, c, d, hsplit, ha, hb, hc, hd⟩ := Field.split_four hfields
      obtain ⟨hsource, hbars⟩ := (Line.splitOn_eq_iff (by simp)).mp hsplit
      simp only [List.mem_cons, List.not_mem_nil, or_false, forall_eq_or_imp, forall_eq] at hbars
      refine ⟨mode, name.text, opcode, ?_, (Except.ok.inj h).symm⟩
      exact ⟨Text.chomp line, a, b, c, d, byte.text, length.text, Text.chomp_eq_iff.mp rfl,
        by simp [hsource], hbars.1, hbars.2.1, hbars.2.2.1, hbars.2.2.2,
        Text.trim_eq_iff.mp (ha.trans hmode), Text.trim_eq_iff.mp hb, hname,
        Text.trim_eq_iff.mp hc, hbyte, Text.trim_eq_iff.mp hd, hlength⟩
    · cases h
  · cases h

theorem Line.Declares.read {filename : String} {number : Int} {line mnemonic : List Char}
    {mode : Mode} {opcode : Nat} (h : Declares line mode mnemonic opcode) :
    Record.ofLine filename number line = .ok (declared filename number mode mnemonic opcode) := by
  obtain ⟨source, a, b, c, d, hex, numeral, hsource, he, hna, hnb, hnc, hnd, ha, hb, hmnemonic,
    hc, hhex, hd, hnumeral⟩ := h
  have hsplit : source.splitOn '|' = [a, b, c, d] := by
    apply (splitOn_eq_iff (by simp)).mpr
    refine ⟨by simp [he], ?_⟩
    simp only [List.mem_cons, List.not_mem_nil, or_false, forall_eq_or_imp, forall_eq]
    exact ⟨hna, hnb, hnc, hnd⟩
  have hread : readFields (.ofSegment 0 a) (.ofSegment (0 + a.length + 1) b)
      (.ofSegment (0 + a.length + 1 + b.length + 1) c)
      (.ofSegment (0 + a.length + 1 + b.length + 1 + c.length + 1) d) =
      .ok (mode, .ofList mnemonic, opcode, mode.length) := by
    simp only [readFields_ok_iff, Field.ofSegment, Text.trim_eq_iff.mpr ha, Text.trim_eq_iff.mpr hb,
      Text.trim_eq_iff.mpr hc, Text.trim_eq_iff.mpr hd, and_true, true_and]
    exact ⟨hmnemonic, hhex, hnumeral⟩
  simp only [Record.ofLine, Text.chomp_eq_iff.mpr hsource, Field.split, Field.separator, hsplit,
    Field.locate, hread]
  rfl

end Cpu6502
