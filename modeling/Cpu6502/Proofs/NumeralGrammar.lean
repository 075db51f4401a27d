import Cpu6502.Proofs.Trimming
import Mathlib.Tactic.IntervalCases

namespace Cpu6502.Text

/-- Digits and what each is worth, with at most one underscore between two of them. -/
inductive DigitRun (digit? : Char → Option Nat) : List Char → List Nat → Prop where
  | last {c : Char} {d : Nat} (hd : digit? c = some d) : DigitRun digit? [c] [d]
  | digit {c : Char} {d : Nat} {cs : List Char} {ds : List Nat} (hd : digit? c = some d)
      (tail : DigitRun digit? cs ds) : DigitRun digit? (c :: cs) (d :: ds)
  | underscore {c : Char} {d : Nat} {cs : List Char} {ds : List Nat} (hd : digit? c = some d)
      (tail : DigitRun digit? cs ds) : DigitRun digit? (c :: '_' :: cs) (d :: ds)

/-- The value of digits behind others that are worth `value`. -/
def valueFrom (base value : Nat) (ds : List Nat) : Nat :=
  ds.foldl (fun value d => value * base + d) value

/-- The value of digits, the most significant first. -/
def valueOf (base : Nat) (ds : List Nat) : Nat := valueFrom base 0 ds

theorem DigitRun.head {digit? : Char → Option Nat} {cs : List Char} {ds : List Nat}
    (h : DigitRun digit? cs ds) : ∃ c rest d, cs = c :: rest ∧ digit? c = some d := by
  cases h with
  | last hd | digit hd _ | underscore hd _ => exact ⟨_, _, _, rfl, hd⟩

theorem DigitRun.length {digit? : Char → Option Nat} {cs : List Char} {ds : List Nat}
    (hu : digit? '_' = none) (h : DigitRun digit? cs ds) :
    (cs.filter (· != '_')).length = ds.length := by
  have hne {c : Char} {d : Nat} (hd : digit? c = some d) : c ≠ '_' := by
    intro h
    subst h
    rw [hu] at hd
    cases hd
  induction h with
  | last hd => simp [hne hd]
  | digit hd _ ih | underscore hd _ ih => simp [hne hd, ih]

theorem readDigitsFrom_digit {base value d : Nat} {c : Char} (rest : List Char)
    (hd : digitValue? base c = some d) :
    readDigitsFrom base value (c :: rest) = readDigitsFrom base (value * base + d) rest := by
  rw [readDigitsFrom, hd]
  intro _ _ hc _
  have hu : digitValue? base '_' = none := by simp [digitValue?]
  rw [hc, hu] at hd
  cases hd

/-- The digit `c` has just been read, so the text may go on with an underscore or end. -/
theorem DigitRun.of_readDigitsFrom {base value n : Nat} {cs : List Char}
    (h : readDigitsFrom base value cs = some n) {c : Char} {d before : Nat}
    (hd : digitValue? base c = some d) (hv : value = before * base + d) :
    ∃ ds, DigitRun (digitValue? base) (c :: cs) ds ∧ n = valueFrom base before ds := by
  induction value, cs using readDigitsFrom.induct base generalizing c d before with
  | case1 value =>
    rw [readDigitsFrom, Option.some.injEq] at h
    exact ⟨[d], .last hd, by simp [valueFrom, ← h, hv]⟩
  | case2 value c' rest d' hd' ih =>
    rw [readDigitsFrom, hd'] at h
    obtain ⟨ds, hrun, hn⟩ := ih h hd' rfl
    exact ⟨d :: ds, .underscore hd hrun, by rw [hn, hv]; rfl⟩
  | case3 value c' rest hd' =>
    rw [readDigitsFrom, hd'] at h
    cases h
  | case4 value c' rest hu d' hd' ih =>
    rw [readDigitsFrom_digit rest hd'] at h
    obtain ⟨ds, hrun, hn⟩ := ih h hd' rfl
    exact ⟨d :: ds, .digit hd hrun, by rw [hn, hv]; rfl⟩
  | case5 value c' rest hu hd' =>
    rw [readDigitsFrom, hd'] at h
    · cases h
    · exact hu

theorem DigitRun.readDigitsFrom {base : Nat} {cs : List Char} {ds : List Nat}
    (h : DigitRun (digitValue? base) cs ds) : ∃ c rest d, cs = c :: rest ∧
      digitValue? base c = some d ∧
      ∀ before,
        Text.readDigitsFrom base (before * base + d) rest = some (valueFrom base before ds) := by
  induction h with
  | @last c d hd =>
    exact ⟨c, [], d, rfl, hd, fun before => by simp [Text.readDigitsFrom, valueFrom]⟩
  | @digit c d cs ds hd _ ih =>
    obtain ⟨c', rest, d', rfl, hd', hread⟩ := ih
    refine ⟨c, _, d, rfl, hd, fun before => ?_⟩
    rw [readDigitsFrom_digit rest hd', hread]
    rfl
  | @underscore c d cs ds hd _ ih =>
    obtain ⟨c', rest, d', rfl, hd', hread⟩ := ih
    refine ⟨c, _, d, rfl, hd, fun before => ?_⟩
    rw [Text.readDigitsFrom, hd']
    exact hread _

theorem readDigits_eq_some_iff {base n : Nat} {cs : List Char} : readDigits base cs = some n ↔
    ∃ ds, DigitRun (digitValue? base) cs ds ∧ n = valueOf base ds := by
  constructor
  · intro h
    cases cs with
    | nil => cases h
    | cons c rest =>
      obtain ⟨d, hd, hrest⟩ := Option.bind_eq_some_iff.mp h
      exact DigitRun.of_readDigitsFrom hrest hd (by rw [Nat.zero_mul, Nat.zero_add])
  · intro h
    obtain ⟨ds, hrun, rfl⟩ := h
    obtain ⟨c, rest, d, rfl, hd, hread⟩ := hrun.readDigitsFrom
    have := hread 0
    rw [Nat.zero_mul, Nat.zero_add] at this
    simp only [readDigits, hd, Option.bind_some, this]
    rfl

/-- Blanks that may stand around a numeral. Of the ASCII ones only those that move the carriage. -/
def isNumeralBlank (c : Char) : Bool :=
  c == ' ' || (0x09 ≤ c.toNat && c.toNat ≤ 0x0D) || (128 ≤ c.toNat && isBlank c)

theorem decimalDigit?_lt {c : Char} {d : Nat} (h : decimalDigit? c = some d) : d < 10 := by
  obtain ⟨first, hfirst, rfl⟩ := Option.map_eq_some_iff.mp h
  have := List.find?_some hfirst
  simp only [Bool.and_eq_true, decide_eq_true_eq] at this
  omega

/-- No blank is a digit, in any script. -/
theorem decimalDigit?_blank {c : Char} (hc : isBlank c = true) : decimalDigit? c = none := by
  have hblanks : ∀ n ∈ [0x09, 0x0A, 0x0B, 0x0C, 0x0D, 0x1C, 0x1D, 0x1E, 0x1F, 0x20, 0x85, 0xA0,
      0x1680, 0x2000, 0x2001, 0x2002, 0x2003, 0x2004, 0x2005, 0x2006, 0x2007, 0x2008, 0x2009,
      0x200A, 0x2028, 0x2029, 0x202F, 0x205F, 0x3000],
      decimalZeros.find? (fun first => first ≤ n && n < first + 10) = none := by decide
  have hmem := hblanks c.toNat (by simp [isBlank] at hc ⊢; omega)
  simp [decimalDigit?, hmem]

theorem digitValue?_of_le {c : Char} (base : Nat) (hc : 128 ≤ c.toNat) :
    digitValue? base c = none := by
  have hrange {a b : Char} (hb : b.toNat < 128) : ¬ (a ≤ c ∧ c ≤ b) := by
    intro h
    obtain ⟨_, hle⟩ := h
    have : c.toNat ≤ b.toNat := hle
    omega
  simp [digitValue?, hrange (a := '0') (b := '9') (by decide),
    hrange (a := 'a') (b := 'f') (by decide), hrange (a := 'A') (b := 'F') (by decide)]

theorem digitValue?_ascii (c : Char) (hc : c.toNat < 128) : digitValue? 10 c = decimalDigit? c := by
  have hall : ∀ n < 128, digitValue? 10 (Char.ofNat n) = decimalDigit? (Char.ofNat n) := by decide
  have := hall c.toNat hc
  rwa [Char.ofNat_toNat] at this

/-- Outside ASCII only blanks and digits get another spelling. -/
theorem asciiForm_cases (c : Char) :
    (c.toNat < 128 ∧ asciiForm c = c) ∨
    (128 ≤ c.toNat ∧ isBlank c = true ∧ asciiForm c = ' ') ∨
    (128 ≤ c.toNat ∧ isBlank c = false ∧
      ∃ d, decimalDigit? c = some d ∧ asciiForm c = Nat.digitChar d) ∨
    (128 ≤ c.toNat ∧ isBlank c = false ∧ decimalDigit? c = none ∧ asciiForm c = c) := by
  unfold asciiForm
  split
  · exact .inl ⟨‹_›, rfl⟩
  · rename_i hc
    have hc : 128 ≤ c.toNat := by omega
    split
    · exact .inr (.inl ⟨hc, ‹_›, rfl⟩)
    · rename_i hblank
      rw [Bool.not_eq_true] at hblank
      cases hd : decimalDigit? c with
      | none => exact .inr (.inr (.inr ⟨hc, hblank, rfl, rfl⟩))
      | some d => exact .inr (.inr (.inl ⟨hc, hblank, d, rfl, rfl⟩))

/-- The ASCII spelling of a digit of any script is worth what the digit is. -/
theorem digitValue?_asciiForm (c : Char) : digitValue? 10 (asciiForm c) = decimalDigit? c := by
  rcases asciiForm_cases c with ⟨hc, he⟩ | ⟨_, hblank, he⟩ | ⟨_, _, d, hd, he⟩ | ⟨hc, _, hd, he⟩
  · rw [he, digitValue?_ascii c hc]
  · rw [he, decimalDigit?_blank hblank]
    decide
  · have := decimalDigit?_lt hd
    rw [he, hd]
    interval_cases d <;> decide
  · rw [he, hd, digitValue?_of_le 10 hc]

theorem asciiForm_eq_symbol {c s : Char} (hs : s ∈ ['_', '+', '-']) : asciiForm c = s ↔ c = s := by
  have hother : s ≠ ' ' ∧ asciiForm s = s ∧ ∀ d < 10, Nat.digitChar d ≠ s := by
    simp only [List.mem_cons, List.not_mem_nil, or_false] at hs
    rcases hs with rfl | rfl | rfl
    all_goals decide
  obtain ⟨hspace, hself, hdigit⟩ := hother
  constructor
  · intro h
    rcases asciiForm_cases c with ⟨_, he⟩ | ⟨_, _, he⟩ | ⟨_, _, d, hd, he⟩ | ⟨_, _, _, he⟩
    · rw [← he, h]
    · exact absurd (h.symm.trans he) hspace
    · exact absurd (he.symm.trans h) (hdigit d (decimalDigit?_lt hd))
    · rw [← he, h]
  · intro h
    subst h
    exact hself

theorem isNumeralMargin_asciiForm (c : Char) :
    isNumeralMargin (asciiForm c) = isNumeralBlank c := by
  have hspace (hc : 128 ≤ c.toNat) : (c == ' ') = false := by
    rw [beq_eq_false_iff_ne]
    intro h
    subst h
    exact absurd hc (by decide)
  rcases asciiForm_cases c with ⟨hc, he⟩ | ⟨hc, hblank, he⟩ | ⟨hc, hblank, d, hd, he⟩ |
    ⟨hc, hblank, _, he⟩
  · have hlow : decide (128 ≤ c.toNat) = false := by simpa using hc
    simp [he, isNumeralMargin, isNumeralBlank, hlow]
  · have hlow : decide (c.toNat ≤ 0x0D) = false := decide_eq_false (by omega)
    simp [he, isNumeralMargin, isNumeralBlank, hblank, hc]
  · have hdigit : isNumeralMargin (Nat.digitChar d) = false := by
      have := decimalDigit?_lt hd
      interval_cases d <;> decide
    have hlow : decide (c.toNat ≤ 0x0D) = false := decide_eq_false (by omega)
    rw [he, hdigit, isNumeralBlank, hspace hc, hblank, hlow]
    simp
  · simp [he, isNumeralMargin, isNumeralBlank, hblank]

theorem DigitRun.map_asciiForm {cs : List Char} {ds : List Nat} :
    DigitRun (digitValue? 10) (cs.map asciiForm) ds ↔ DigitRun decimalDigit? cs ds := by
  constructor
  · intro h
    generalize hmap : cs.map asciiForm = form at h
    induction h generalizing cs with
    | last hd =>
      obtain ⟨c, rfl, rfl⟩ := List.map_eq_singleton_iff.mp hmap
      exact .last (by rwa [← digitValue?_asciiForm])
    | digit hd _ ih =>
      obtain ⟨c, rest, rfl, rfl, hrest⟩ := List.map_eq_cons_iff.mp hmap
      exact .digit (by rwa [← digitValue?_asciiForm]) (ih hrest)
    | underscore hd _ ih =>
      obtain ⟨c, later, rfl, rfl, hlater⟩ := List.map_eq_cons_iff.mp hmap
      obtain ⟨u, rest, rfl, hu, hrest⟩ := List.map_eq_cons_iff.mp hlater
      rw [asciiForm_eq_symbol (by simp)] at hu
      subst hu
      exact .underscore (by rwa [← digitValue?_asciiForm]) (ih hrest)
  · intro h
    induction h with
    | last hd => exact .last (by rwa [digitValue?_asciiForm])
    | digit hd _ ih => exact .digit (by rwa [digitValue?_asciiForm]) ih
    | underscore hd _ ih => exact .underscore (by rwa [digitValue?_asciiForm]) ih

theorem readDecimalDigits_map_iff {cs : List Char} {n : Nat} :
    readDecimalDigits (cs.map asciiForm) = some n ↔
      ∃ ds, DigitRun decimalDigit? cs ds ∧ ds.length ≤ decimalDigitLimit ∧ n = valueOf 10 ds := by
  have hcount {ds : List Nat} (h : DigitRun decimalDigit? cs ds) :
      ((cs.map asciiForm).filter (· != '_')).length = ds.length :=
    (DigitRun.map_asciiForm.mpr h).length (by decide)
  unfold readDecimalDigits
  split
  · rename_i hlimit
    rw [readDigits_eq_some_iff]
    constructor
    · intro h
      obtain ⟨ds, hrun, hn⟩ := h
      have hrun := DigitRun.map_asciiForm.mp hrun
      exact ⟨ds, hrun, by rwa [hcount hrun] at hlimit, hn⟩
    · intro h
      obtain ⟨ds, hrun, _, hn⟩ := h
      exact ⟨ds, DigitRun.map_asciiForm.mpr hrun, hn⟩
  · rename_i hlimit
    constructor
    · intro h
      cases h
    · intro h
      obtain ⟨ds, hrun, hlen, _⟩ := h
      rw [hcount hrun] at hlimit
      exact absurd hlen hlimit

theorem readDecimalDigits_map_sign {sign : Nat → Int} {digits : List Char} {n : Int} :
    (readDecimalDigits (digits.map asciiForm)).map sign = some n ↔
      ∃ ds, DigitRun decimalDigit? digits ds ∧ ds.length ≤ decimalDigitLimit ∧
        n = sign (valueOf 10 ds) := by
  rw [Option.map_eq_some_iff]
  constructor
  · intro h
    obtain ⟨v, hv, rfl⟩ := h
    obtain ⟨ds, hrun, hlen, rfl⟩ := readDecimalDigits_map_iff.mp hv
    exact ⟨ds, hrun, hlen, rfl⟩
  · intro h
    obtain ⟨ds, hrun, hlen, rfl⟩ := h
    exact ⟨_, readDecimalDigits_map_iff.mpr ⟨ds, hrun, hlen, rfl⟩, rfl⟩

/-- The decimal numerals of an integer: blanks, a sign, digits of any script, and blanks. -/
def DecimalNumeral (text : List Char) (n : Int) : Prop :=
  ∃ body digits ds, Trimmed isNumeralBlank text body ∧ DigitRun decimalDigit? digits ds ∧
    ds.length ≤ decimalDigitLimit ∧
    (body = digits ∧ n = valueOf 10 ds ∨ body = '+' :: digits ∧ n = valueOf 10 ds ∨
      body = '-' :: digits ∧ n = -valueOf 10 ds)

theorem DigitRun.ne_sign {cs rest : List Char} {ds : List Nat} {s : Char}
    (h : DigitRun decimalDigit? cs ds) (hs : decimalDigit? s = none) : cs ≠ s :: rest := by
  intro heq
  subst heq
  obtain ⟨c, _, d, he, hd⟩ := h.head
  rw [← (List.cons.inj he).1, hs] at hd
  cases hd

/-- The sign is told from the digits by the first character alone. -/
theorem readDecimal_eq_some_iff {text : List Char} {n : Int} :
    readDecimal text = some n ↔ DecimalNumeral text n := by
  have hplus : decimalDigit? '+' = none := by decide
  have hminus : decimalDigit? '-' = none := by decide
  have hform : trimNumeral (text.map asciiForm) = (trimBy isNumeralBlank text).map asciiForm := by
    have hmargin : isNumeralMargin ∘ asciiForm = isNumeralBlank := funext isNumeralMargin_asciiForm
    change trimBy isNumeralMargin (text.map asciiForm) = _
    rw [trimBy_map, hmargin]
  have hbody (body : List Char) :
      Trimmed isNumeralBlank text body ↔ body = trimBy isNumeralBlank text :=
    trimBy_eq_iff.symm.trans eq_comm
  simp only [readDecimal, readSigned, hform, DecimalNumeral, hbody, exists_and_left, exists_eq_left]
  generalize trimBy isNumeralBlank text = body
  split
  · rename_i hmap
    obtain ⟨c, digits, rfl, hc, rfl⟩ := List.map_eq_cons_iff.mp hmap
    rw [asciiForm_eq_symbol (by simp)] at hc
    subst hc
    rw [readDecimalDigits_map_sign]
    constructor
    · intro h
      obtain ⟨ds, hrun, hlen, hn⟩ := h
      exact ⟨digits, ds, hrun, hlen, .inr (.inl ⟨rfl, hn⟩)⟩
    · intro h
      obtain ⟨digits', ds, hrun, hlen, ⟨he, _⟩ | ⟨he, hn⟩ | ⟨he, _⟩⟩ := h
      · exact absurd he.symm (hrun.ne_sign hplus)
      · cases he
        exact ⟨ds, hrun, hlen, hn⟩
      · cases he
  · rename_i hmap
    obtain ⟨c, digits, rfl, hc, rfl⟩ := List.map_eq_cons_iff.mp hmap
    rw [asciiForm_eq_symbol (by simp)] at hc
    subst hc
    rw [readDecimalDigits_map_sign]
    constructor
    · intro h
      obtain ⟨ds, hrun, hlen, hn⟩ := h
      exact ⟨digits, ds, hrun, hlen, .inr (.inr ⟨rfl, hn⟩)⟩
    · intro h
      obtain ⟨digits', ds, hrun, hlen, ⟨he, _⟩ | ⟨he, _⟩ | ⟨he, hn⟩⟩ := h
      · exact absurd he.symm (hrun.ne_sign hminus)
      · cases he
      · cases he
        exact ⟨ds, hrun, hlen, hn⟩
  · rename_i hp hm
    rw [readDecimalDigits_map_sign]
    constructor
    · intro h
      obtain ⟨ds, hrun, hlen, hn⟩ := h
      exact ⟨body, ds, hrun, hlen, .inl ⟨rfl, hn⟩⟩
    · intro h
      obtain ⟨digits', ds, hrun, hlen, ⟨he, hn⟩ | ⟨he, _⟩ | ⟨he, _⟩⟩ := h
      · cases he
        exact ⟨ds, hrun, hlen, hn⟩
      · exact absurd (by rw [he, List.map_cons, (asciiForm_eq_symbol (by simp)).mpr rfl]) (hp _)
      · exact absurd (by rw [he, List.map_cons, (asciiForm_eq_symbol (by simp)).mpr rfl]) (hm _)

end Cpu6502.Text
