import Cpu6502.Proofs.NumeralGrammar

namespace Cpu6502.Text

/-- An upper-case digit. -/
def upperDigit (d : Nat) : Char := (Nat.digitChar d).toUpper

theorem digitValue?_digitChar {base d : Nat} (hb : base ≤ 16) (hd : d < base) :
    digitValue? base (Nat.digitChar d) = some d ∧ digitValue? base (upperDigit d) = some d := by
  have hall : ∀ d < 16, digitValue? 16 (Nat.digitChar d) = some d ∧
      digitValue? 16 (upperDigit d) = some d := by decide
  have hsmaller {c : Char} (h : digitValue? 16 c = some d) : digitValue? base c = some d := by
    simp only [digitValue?, Option.filter_eq_some_iff, decide_eq_true_eq] at h ⊢
    exact ⟨h.1, hd⟩
  have := hall d (by omega)
  exact ⟨hsmaller this.1, hsmaller this.2⟩

theorem DigitRun.of_map {digit? : Char → Option Nat} {write : Nat → Char} {ds : List Nat}
    (hne : ds ≠ []) (h : ∀ d ∈ ds, digit? (write d) = some d) :
    DigitRun digit? (ds.map write) ds := by
  induction ds with
  | nil => exact absurd rfl hne
  | cons d ds ih =>
    cases ds with
    | nil => exact .last (h d (by simp))
    | cons d' ds => exact .digit (h d (by simp)) (ih (by simp) fun e he => h e (by simp [he]))

theorem valueFrom_append (base value : Nat) (ds es : List Nat) :
    valueFrom base value (ds ++ es) = valueFrom base (valueFrom base value ds) es :=
  List.foldl_append

theorem valueOf_zeros (base k : Nat) (ds : List Nat) :
    valueOf base (List.replicate k 0 ++ ds) = valueOf base ds := by
  have hzeros : valueFrom base 0 (List.replicate k 0) = 0 := by
    induction k with
    | zero => rfl
    | succ k ih => simpa [List.replicate_succ, valueFrom] using ih
  rw [valueOf, valueFrom_append, hzeros, valueOf]

/-- What `Nat.toDigits` writes are digits of the base that are worth the number. -/
theorem toDigits_digits {base : Nat} (hb : 1 < base) (n : Nat) :
    ∃ ds, Nat.toDigits base n = ds.map Nat.digitChar ∧ ds ≠ [] ∧ (∀ d ∈ ds, d < base) ∧
      valueOf base ds = n := by
  induction n using Nat.strongRecOn with
  | ind n ih =>
    by_cases hn : n < base
    · refine ⟨[n], ?_, by simp, by simpa using hn, by simp [valueOf, valueFrom]⟩
      rw [Nat.toDigits_of_lt_base hn, List.map_singleton]
    · obtain ⟨ds, hds, _, hlt, hvalue⟩ := ih (n / base) (Nat.div_lt_self (by omega) hb)
      refine ⟨ds ++ [n % base], ?_, by simp, ?_, ?_⟩
      · rw [Nat.toDigits_of_base_le hb (by omega), hds, List.map_append, List.map_singleton]
      · intro d hd
        rcases List.mem_append.mp hd with hd | hd
        · exact hlt d hd
        · rw [List.mem_singleton.mp hd]
          exact Nat.mod_lt n (by omega)
      · rw [valueOf, valueFrom_append, ← valueOf, hvalue]
        change n / base * base + n % base = n
        exact Nat.div_add_mod' n base

theorem readDigits_toDigits {base : Nat} (hb : 1 < base) (hb' : base ≤ 16) (n : Nat) :
    readDigits base (Nat.toDigits base n) = some n := by
  obtain ⟨ds, hds, hne, hlt, hvalue⟩ := toDigits_digits hb n
  rw [hds]
  exact readDigits_eq_some_iff.mpr
    ⟨ds, .of_map hne fun d hd => (digitValue?_digitChar hb' (hlt d hd)).1, hvalue.symm⟩

@[simp]
theorem lowerHex_natCast (n : Nat) : (lowerHex n).toList = Nat.toDigits 16 n := by
  simp [lowerHex, signText]

@[simp]
theorem decimal_natCast (n : Nat) : (decimal n).toList = Nat.toDigits 10 n := by
  simp [decimal, signText]

/-- Padded upper-case digits. There are no more of them than the width or the number asks for. -/
theorem upperHex_digits {width : Nat} (hw : 0 < width) {n : Nat} :
    ∃ ds, (upperHex width n).toList = ds.map upperDigit ∧ ds ≠ [] ∧ (∀ d ∈ ds, d < 16) ∧
      valueOf 16 ds = n ∧ width ≤ ds.length ∧
      ∀ k, width ≤ k → n < 16 ^ k → ds.length ≤ k := by
  obtain ⟨ds, hds, hne, hlt, hvalue⟩ := toDigits_digits (show 1 < 16 by omega) n
  have hlength : (Nat.toDigits 16 n).length = ds.length := by rw [hds, List.length_map]
  refine ⟨List.replicate (width - ds.length) 0 ++ ds, ?_, by simp [hne], ?_, ?_, ?_, ?_⟩
  · have hsign : signText (n : Int) = [] := by simp [signText]
    have hzero : '0' = upperDigit 0 := by decide
    simp only [upperHex, hsign, String.toList_ofList, List.nil_append, List.length_nil,
      Int.natAbs_natCast, hds, List.length_map, List.map_append, List.map_map, List.map_replicate,
      ← hzero, Nat.sub_zero]
    rfl
  · intro d hd
    rcases List.mem_append.mp hd with hd | hd
    · rw [(List.mem_replicate.mp hd).2]
      decide
    · exact hlt d hd
  · rw [valueOf_zeros, hvalue]
  · simp only [List.length_append, List.length_replicate]
    omega
  · intro k hk hn
    have := (Nat.length_toDigits_le_iff (by decide) (show 0 < k by omega)).mpr hn
    simp only [List.length_append, List.length_replicate]
    omega

/-- A number that fits has as many digits as the width. -/
theorem upperHex_width {width : Nat} (hw : 0 < width) {n : Nat} (hn : n < 16 ^ width) :
    ∃ ds, (upperHex width n).toList = ds.map upperDigit ∧ ds.length = width ∧ (∀ d ∈ ds, d < 16) ∧
      valueOf 16 ds = n := by
  obtain ⟨ds, hds, _, hlt, hvalue, hmin, hmax⟩ := upperHex_digits hw (n := n)
  exact ⟨ds, hds, Nat.le_antisymm (hmax width (Nat.le_refl _) hn) hmin, hlt, hvalue⟩

theorem readDigits_upperHex {width : Nat} (hw : 0 < width) (n : Nat) :
    readDigits 16 (upperHex width n).toList = some n := by
  obtain ⟨ds, hds, hne, hlt, hvalue, _⟩ := upperHex_digits hw (n := n)
  rw [hds]
  exact readDigits_eq_some_iff.mpr
    ⟨ds, .of_map hne fun d hd => (digitValue?_digitChar (by decide) (hlt d hd)).2, hvalue.symm⟩

end Cpu6502.Text
