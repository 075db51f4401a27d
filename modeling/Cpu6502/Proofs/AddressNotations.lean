import Cpu6502.Address
import Cpu6502.Instruction
import Cpu6502.Proofs.DigitText
import Cpu6502.Proofs.LineGrammar

namespace Cpu6502

namespace Text

open Line (HexDigit)

variable {text : List Char} {n : Nat}

/-- Digits, at least one, that spell a number. -/
def Spells (digit : Char → Nat → Prop) (base : Nat) (text : List Char) (n : Nat) : Prop :=
  ∃ ds, ds ≠ [] ∧ List.Forall₂ digit text ds ∧ valueOf base ds = n

/-- A decimal digit of ASCII, and what it is worth. -/
def DecimalDigit (c : Char) (d : Nat) : Prop := "0123456789".toList[d]? = some c

theorem Spells.digit_of_mem {digit : Char → Nat → Prop} {base : Nat}
    (h : Spells digit base text n) :
    ∀ c ∈ text, ∃ d, digit c d := by
  obtain ⟨_, _, hdigits, _⟩ := h
  exact exists_of_forall₂ hdigits

theorem DigitRun.of_forall₂ {digit? : Char → Option Nat} {ds : List Nat} (hne : ds ≠ [])
    (h : List.Forall₂ (fun c d => digit? c = some d) text ds) : DigitRun digit? text ds := by
  induction h with
  | nil => exact absurd rfl hne
  | cons hd hrest ih =>
    cases hrest with
    | nil => exact .last hd
    | cons => exact .digit hd (ih (List.cons_ne_nil _ _))

/-- A character that is no margin of a numeral and is its own ASCII spelling. -/
def Bare (c : Char) : Prop := asciiForm c = c ∧ isNumeralMargin c = false

instance (c : Char) : Decidable (Bare c) := inferInstanceAs (Decidable (_ ∧ _))

theorem HexDigit.bare {c : Char} {d : Nat} (h : HexDigit c d) :
    Bare c ∧ c ∉ ['+', '-', '_', 'x', 'X'] := by
  have hall : ("0123456789abcdef".toList ++ "0123456789ABCDEF".toList).all
      (fun c => Bare c ∧ c ∉ ['+', '-', '_', 'x', 'X']) = true := by decide
  have hmem : c ∈ "0123456789abcdef".toList ++ "0123456789ABCDEF".toList := by
    rcases h with h | h
    · exact List.mem_append_left _ (List.mem_of_getElem? h)
    · exact List.mem_append_right _ (List.mem_of_getElem? h)
  exact of_decide_eq_true (List.all_eq_true.mp hall c hmem)

theorem trimNumeral_of_bare (h : ∀ c ∈ text, Bare c) : trimNumeral (text.map asciiForm) = text := by
  have hform : text.map asciiForm = text :=
    (List.map_congr_left fun c hc => (h c hc).1).trans (List.map_id text)
  rw [hform]
  apply trimBy_eq_iff.mpr
  refine ⟨[], [], by simp, nofun, nofun, ?_, ?_⟩
  · intro c hc
    exact (h c (List.mem_of_mem_head? hc)).2
  · intro c hc
    exact (h c (List.mem_of_mem_getLast? hc)).2

/-- Without a sign a numeral is what its digits are worth, and with a minus sign the opposite. -/
theorem readSigned_bare (magnitude : List Char → Option Nat) (h : ∀ c ∈ text, Bare c)
    (hsign : '+' ∉ text ∧ '-' ∉ text) :
    readSigned magnitude text = (magnitude text).map Int.ofNat ∧
      readSigned magnitude ('-' :: text) = (magnitude text).map fun n => -Int.ofNat n := by
  have hminus : ∀ c ∈ '-' :: text, Bare c := List.forall_mem_cons.mpr ⟨by decide, h⟩
  rw [readSigned, trimNumeral_of_bare h, readSigned, trimNumeral_of_bare hminus]
  refine ⟨?_, rfl⟩
  split
  · simp at hsign
  · simp at hsign
  · rfl

theorem readHexDigits_prefixed {x : Char} (hx : x = 'x' ∨ x = 'X') (h : '_' ∉ text) :
    readHexDigits ('0' :: x :: text) = readDigits 16 text := by
  have hprefix : (x == 'x' || x == 'X') = true := by simpa using hx
  simp only [readHexDigits, hprefix, if_true]
  split
  · exact absurd List.mem_cons_self h
  · rfl

theorem readHexDigits_bare (hx : 'x' ∉ text) (hX : 'X' ∉ text) :
    readHexDigits text = readDigits 16 text := by
  unfold readHexDigits
  split
  · rename_i x rest
    have hprefix : ¬ (x == 'x' || x == 'X') = true := by
      intro h
      rcases (by simpa using h : x = 'x' ∨ x = 'X') with rfl | rfl
      · simp at hx
      · simp at hX
    rw [if_neg hprefix]
  · rfl

theorem Spells.no_symbol (h : Spells HexDigit 16 text n) {s : Char}
    (hs : s ∈ ['+', '-', '_', 'x', 'X']) : s ∉ text := by
  intro hmem
  obtain ⟨d, hd⟩ := h.digit_of_mem s hmem
  exact (HexDigit.bare hd).2 hs

/-- Hexadecimal digits are worth the same with a prefix and without. -/
theorem readHexDigits_of_spells (h : Spells HexDigit 16 text n) :
    readHexDigits text = some n ∧
      ∀ x, x = 'x' ∨ x = 'X' → readHexDigits ('0' :: x :: text) = some n := by
  have hread : readDigits 16 text = some n := by
    obtain ⟨ds, hne, hdigits, hvalue⟩ := h
    apply readDigits_eq_some_iff.mpr
    exact ⟨ds, .of_forall₂ hne (hdigits.imp fun _ _ => Line.digitValue?_iff.mpr), hvalue.symm⟩
  constructor
  · rw [readHexDigits_bare (h.no_symbol (by simp)) (h.no_symbol (by simp)), hread]
  · intro x hx
    rw [readHexDigits_prefixed hx (h.no_symbol (by simp)), hread]

theorem readHex_of_spells (h : Spells HexDigit 16 text n) :
    readHex text = some (n : Int) ∧ readHex ('-' :: text) = some (-(n : Int)) ∧
      ∀ x, x = 'x' ∨ x = 'X' → readHex ('0' :: x :: text) = some (n : Int) := by
  have hbare : ∀ c ∈ text, Bare c := by
    intro c hc
    obtain ⟨d, hd⟩ := h.digit_of_mem c hc
    exact (HexDigit.bare hd).1
  have hsign : '+' ∉ text ∧ '-' ∉ text := ⟨h.no_symbol (by simp), h.no_symbol (by simp)⟩
  obtain ⟨hdigits, hprefixed⟩ := readHexDigits_of_spells h
  obtain ⟨hplus, hminus⟩ := readSigned_bare readHexDigits hbare hsign
  refine ⟨?_, ?_, ?_⟩
  · rw [readHex, hplus, hdigits]
    rfl
  · rw [readHex, hminus, hdigits]
    rfl
  · intro x hx
    have hbare' : ∀ c ∈ '0' :: x :: text, Bare c := by
      refine List.forall_mem_cons.mpr ⟨by decide, List.forall_mem_cons.mpr ⟨?_, hbare⟩⟩
      rcases hx with rfl | rfl
      · decide
      · decide
    have hsign' : '+' ∉ '0' :: x :: text ∧ '-' ∉ '0' :: x :: text := by
      rcases hx with rfl | rfl
      · simp [hsign]
      · simp [hsign]
    rw [readHex, (readSigned_bare readHexDigits hbare' hsign').1, hprefixed x hx]
    rfl

theorem DecimalDigit.reads {c : Char} {d : Nat} (h : DecimalDigit c d) :
    decimalDigit? c = some d ∧ isNumeralBlank c = false ∧ c ∉ ['$', 'x', 'X'] := by
  have hall : "0123456789".toList.zipIdx.all
      (fun p => decimalDigit? p.1 = some p.2 ∧ isNumeralBlank p.1 = false ∧
        p.1 ∉ ['$', 'x', 'X']) = true := by decide
  have hmem : (c, d) ∈ "0123456789".toList.zipIdx := List.mem_zipIdx_iff_getElem?.mpr h
  exact of_decide_eq_true (List.all_eq_true.mp hall (c, d) hmem)

/-- Leading zeros count towards the limit. -/
theorem readDecimal_of_spells (h : Spells DecimalDigit 10 text n) (hlimit : text.length ≤ 4300) :
    readDecimal text = some (n : Int) := by
  have hsolid {c : Char} (hc : c ∈ text) : isNumeralBlank c = false := by
    obtain ⟨d, hd⟩ := h.digit_of_mem c hc
    exact hd.reads.2.1
  obtain ⟨ds, hne, hdigits, hvalue⟩ := h
  have hrun : DigitRun decimalDigit? text ds :=
    .of_forall₂ hne (hdigits.imp fun _ _ hd => hd.reads.1)
  apply readDecimal_eq_some_iff.mpr
  refine ⟨text, text, ds, ?_, hrun, hdigits.length_eq ▸ hlimit, .inl ⟨rfl, by rw [hvalue]⟩⟩
  refine ⟨[], [], by simp, nofun, nofun, ?_, ?_⟩
  · intro c hc
    exact hsolid (List.mem_of_mem_head? hc)
  · intro c hc
    exact hsolid (List.mem_of_mem_getLast? hc)

theorem upperHex_spells {width : Nat} (hwidth : 0 < width) (n : Nat) :
    Spells HexDigit 16 (upperHex width n).toList n := by
  obtain ⟨ds, hds, hne, hlt, hvalue, _⟩ := upperHex_digits hwidth (n := n)
  refine ⟨ds, hne, ?_, hvalue⟩
  rw [hds, List.forall₂_map_left_iff, List.forall₂_same]
  intro d hd
  exact Line.digitValue?_iff.mp (digitValue?_digitChar (Nat.le_refl 16) (hlt d hd)).2

/-- The sign of a negative number takes one place of the width. -/
theorem upperHex_negSucc (width n : Nat) :
    (upperHex (width + 1) (Int.negSucc n)).toList =
      '-' :: (upperHex width (n + 1 : Nat)).toList := by
  have hnegative : signText (Int.negSucc n) = ['-'] := by simp [signText]
  have hpositive : signText (n + 1 : Nat) = [] := if_neg (by omega)
  simp only [upperHex, hnegative, hpositive, String.toList_ofList, Int.natAbs_natCast,
    Int.natAbs_negSucc, List.length_singleton, List.length_nil, Nat.add_sub_cancel, Nat.sub_zero,
    List.cons_append, List.nil_append]

end Text

namespace Address

theorem readHex_upperHex (a : Int) : Text.readHex (Text.upperHex 4 a).toList = some a := by
  cases a with
  | ofNat n => exact (Text.readHex_of_spells (Text.upperHex_spells (by omega) n)).1
  | negSucc n =>
    rw [Text.upperHex_negSucc]
    exact (Text.readHex_of_spells (Text.upperHex_spells (by omega) (n + 1))).2.1

theorem read_dollar (digits : String) : read ("$" ++ digits) = Text.readHex digits.toList := by
  simp [read]

theorem read_prefixed {x : Char} (hx : x = 'x' ∨ x = 'X') {text : String} {digits : List Char}
    (htext : text.toList = '0' :: x :: digits) : read text = Text.readHex text.toList := by
  rw [read, htext]
  exact if_pos hx

theorem read_plain {text : String} (h : ∀ c ∈ text.toList, c ∉ ['$', 'x', 'X']) :
    read text = Text.readDecimal text.toList := by
  unfold read
  split
  · rename_i x rest htext
    have hx : ¬ (x = 'x' ∨ x = 'X') := by
      intro hx
      apply h x (by simp [htext])
      rcases hx with rfl | rfl
      · simp
      · simp
    rw [if_neg hx, htext]
  · rename_i digits htext
    exact absurd List.mem_cons_self (h '$' (by simp [htext]))
  · rfl

theorem listingLine_address (i : Instruction) :
    ∃ rest, i.listingLine = i.addressText ++ ": " ++ rest := by
  unfold Instruction.listingLine
  split
  · exact ⟨_, rfl⟩
  · simp only [String.append_assoc]
    exact ⟨_, rfl⟩

/-- Whatever spells a number is read as it, and so is the text of an address in a listing. -/
theorem read_notations :
    (∀ (n : Nat) (digits : String), Text.Spells Line.HexDigit 16 digits.toList n →
      read ("0x" ++ digits) = some (n : Int) ∧ read ("0X" ++ digits) = some (n : Int) ∧
        read ("$" ++ digits) = some (n : Int)) ∧
    (∀ (n : Nat) (digits : String), Text.Spells Text.DecimalDigit 10 digits.toList n →
      digits.length ≤ 4300 → read digits = some (n : Int)) ∧
    (∀ a : Int, read ("$" ++ Text.upperHex 4 a) = some a) ∧
    ∀ i : Instruction, read i.addressText = some i.address ∧
      ∃ rest, i.listingLine = i.addressText ++ ": " ++ rest := by
  have hprinted (a : Int) : read ("$" ++ Text.upperHex 4 a) = some a := by
    rw [read_dollar, readHex_upperHex]
  refine ⟨?_, ?_, hprinted, fun i => ⟨hprinted i.address, listingLine_address i⟩⟩
  · intro n digits h
    obtain ⟨hplain, _, hprefixed⟩ := Text.readHex_of_spells h
    have hlower : ("0x" ++ digits).toList = '0' :: 'x' :: digits.toList := by simp
    have hupper : ("0X" ++ digits).toList = '0' :: 'X' :: digits.toList := by simp
    refine ⟨?_, ?_, ?_⟩
    · rw [read_prefixed (.inl rfl) hlower, hlower, hprefixed 'x' (.inl rfl)]
    · rw [read_prefixed (.inr rfl) hupper, hupper, hprefixed 'X' (.inr rfl)]
    · rw [read_dollar, hplain]
  · intro n digits h hlimit
    rw [read_plain, Text.readDecimal_of_spells h hlimit]
    intro c hc
    obtain ⟨d, hd⟩ := h.digit_of_mem c hc
    exact hd.reads.2.2

/-- Zeros before digits of both cases, and an address below zero. -/
theorem read_notations_padded :
    let digits : String := "00fF"
    Text.Spells Line.HexDigit 16 digits.toList 255 ∧ read "0x00fF" = some 255 ∧
      read "0X00fF" = some 255 ∧ read "$00fF" = some 255 ∧
      Text.Spells Text.DecimalDigit 10 "0255".toList 255 ∧ read "0255" = some 255 ∧
      Text.upperHex 4 (-255) = "-0FF" ∧ read "$-0FF" = some (-255) := by
  intro digits
  have hhex : Text.Spells Line.HexDigit 16 digits.toList 255 :=
    ⟨[0, 0, 15, 15], by simp, by simp [digits, Line.HexDigit], rfl⟩
  have hdecimal : Text.Spells Text.DecimalDigit 10 "0255".toList 255 :=
    ⟨[0, 2, 5, 5], by simp, by simp [Text.DecimalDigit], rfl⟩
  obtain ⟨hlower, hupper, hdollar⟩ := read_notations.1 255 digits hhex
  have hwidth : Text.upperHex 4 (-255) = "-0FF" := by decide
  refine ⟨hhex, hlower, hupper, hdollar, hdecimal, ?_, hwidth, ?_⟩
  · exact read_notations.2.1 255 "0255" hdecimal (by decide)
  · have hread := read_notations.2.2.1 (-255)
    rwa [hwidth] at hread

end Address

end Cpu6502
