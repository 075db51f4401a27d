import Cpu6502.Proofs.DigitText
import Cpu6502.Proofs.FirstInstruction

namespace Cpu6502.Decode

def isHexDigit (c : Char) : Bool := (Text.digitValue? 16 c).isSome

/-- The hexadecimal digits right after the dollar sign of a text. -/
def digitsAfterDollar (text : List Char) : List Char :=
  ((text.dropWhile (· != '$')).drop 1).takeWhile isHexDigit

/-- The bytes that pairs of digits spell, the last pair first. -/
def littleEndian? : List Char → Option (List UInt8)
  | [] => some []
  | [_] => none
  | high :: low :: rest =>
    match Text.digitValue? 16 high, Text.digitValue? 16 low, littleEndian? rest with
    | some h, some l, some bytes => some (bytes ++ [.ofNat (16 * h + l)])
    | _, _, _ => none

/-- The operand bytes of an instruction at an address, from the text of its operand. -/
def operandBytes? (mode : Mode) (address : Int) (operand : String) : Option (List UInt8) :=
  let digits := digitsAfterDollar operand.toList
  match mode with
  | .implied | .accumulator => some []
  | .relative =>
    (Text.readDigits 16 digits).map fun target => [.ofNat ((target - address - 2) % 256).toNat]
  | _ => littleEndian? digits

/-- What is printed around the digits cannot be taken for a part of them. -/
def Frames (before after : String) : Prop :=
  '$' ∉ before.toList ∧ after.toList.takeWhile isHexDigit = []

instance (before after : String) : Decidable (Frames before after) :=
  inferInstanceAs (Decidable (_ ∧ _))

theorem isHexDigit_upperDigit {d : Nat} (hd : d < 16) : isHexDigit (Text.upperDigit d) = true := by
  rw [isHexDigit, (Text.digitValue?_digitChar (by decide) hd).2]
  rfl

theorem digitsAfterDollar_frames {before after : String} (h : Frames before after) {ds : List Nat}
    (hlt : ∀ d ∈ ds, d < 16) :
    digitsAfterDollar (before.toList ++ '$' :: ds.map Text.upperDigit ++ after.toList) =
      ds.map Text.upperDigit := by
  have hbefore : ∀ c ∈ before.toList, (c != '$') = true := by
    intro c hc
    simp only [bne_iff_ne]
    intro he
    exact h.1 (he ▸ hc)
  have hdigits : ∀ c ∈ ds.map Text.upperDigit, isHexDigit c = true := by
    intro c hc
    obtain ⟨d, hd, rfl⟩ := List.mem_map.mp hc
    exact isHexDigit_upperDigit (hlt d hd)
  rw [digitsAfterDollar, List.append_assoc, List.dropWhile_append_of_pos hbefore]
  simp [List.takeWhile_append_of_pos hdigits, h.2]

theorem littleEndian?_byte {ds : List Nat} {b : UInt8} (hlen : ds.length = 2)
    (hlt : ∀ d ∈ ds, d < 16) (hvalue : Text.valueOf 16 ds = b.toNat) :
    littleEndian? (ds.map Text.upperDigit) = some [b] := by
  match ds with
  | [d, e] =>
    have hread : ∀ x ∈ [d, e], Text.digitValue? 16 (Text.upperDigit x) = some x := fun x hx =>
      (Text.digitValue?_digitChar (by decide) (hlt x hx)).2
    have hb : 16 * d + e = b.toNat := by
      simp only [Text.valueOf, Text.valueFrom, List.foldl_cons, List.foldl_nil] at hvalue
      omega
    simp [littleEndian?, hread, hb]

theorem littleEndian?_word {ds : List Nat} {low high : UInt8} (hlen : ds.length = 4)
    (hlt : ∀ d ∈ ds, d < 16) (hvalue : Text.valueOf 16 ds = low.toNat + 256 * high.toNat) :
    littleEndian? (ds.map Text.upperDigit) = some [low, high] := by
  match ds with
  | [a, b, c, d] =>
    have hread : ∀ x ∈ [a, b, c, d], Text.digitValue? 16 (Text.upperDigit x) = some x := fun x hx =>
      (Text.digitValue?_digitChar (by decide) (hlt x hx)).2
    have hc := hlt c (by simp)
    have hd := hlt d (by simp)
    have hlow := low.toNat_lt
    simp only [Text.valueOf, Text.valueFrom, List.foldl_cons, List.foldl_nil] at hvalue
    have hl : 16 * c + d = low.toNat := by omega
    have hh : 16 * a + b = high.toNat := by omega
    simp [littleEndian?, hread, hl, hh]

theorem read_byte {before after : String} (h : Frames before after) {bytes : List UInt8}
    (hlen : bytes.length = 1) {operand : Operand}
    (hoperand : byte before after bytes = some operand) :
    littleEndian? (digitsAfterDollar operand.text.toList) = some bytes := by
  match bytes with
  | [b] =>
    obtain ⟨ds, hds, hlen, hlt, hvalue⟩ :=
      Text.upperHex_width (show 0 < 2 by omega) (n := b.toNat) b.toNat_lt
    cases hoperand
    have htext : (before ++ "$" ++ Text.upperHex 2 b.toNat ++ after).toList =
        before.toList ++ '$' :: ds.map Text.upperDigit ++ after.toList := by simp [hds]
    rw [htext, digitsAfterDollar_frames h hlt]
    exact littleEndian?_byte hlen hlt hvalue

theorem read_word {before after : String} (h : Frames before after) {bytes : List UInt8}
    (hlen : bytes.length = 2) {operand : Operand}
    (hoperand : word before after bytes = some operand) :
    littleEndian? (digitsAfterDollar operand.text.toList) = some bytes := by
  match bytes with
  | [low, high] =>
    have hw : low.toNat + 256 * high.toNat < 16 ^ 4 := by
      have := low.toNat_lt
      have := high.toNat_lt
      omega
    obtain ⟨ds, hds, hlen, hlt, hvalue⟩ := Text.upperHex_width (show 0 < 4 by omega) hw
    cases hoperand
    have htext :
        (before ++ "$" ++ Text.upperHex 4 (low.toNat + 256 * high.toNat : Nat) ++ after).toList =
          before.toList ++ '$' :: ds.map Text.upperDigit ++ after.toList := by
      rw [← hds]
      simp
    rw [htext, digitsAfterDollar_frames h hlt]
    exact littleEndian?_word hlen hlt hvalue

theorem target_range (next : Int) (value : Nat) :
    ∃ n : Nat, target next value = n ∧ n < 16 ^ 4 :=
  ⟨(target next value).toNat, by unfold target; omega, by unfold target; omega⟩

/-- The distance to the target of a branch, in one byte, is its operand. -/
theorem target_distance (address : Int) (b : UInt8) :
    (target (address + 2) b.toNat - address - 2) % 256 = b.toNat := by
  have := b.toNat_lt
  unfold target displacement
  split <;> omega

theorem read_branch {address : Int} {bytes : List UInt8} (hlen : bytes.length = 1)
    {operand : Operand} (hoperand : branch (address + 2) bytes = some operand) :
    operandBytes? .relative address operand.text = some bytes := by
  match bytes with
  | [b] =>
    obtain ⟨n, hn, hlt⟩ := target_range (address + 2) b.toNat
    obtain ⟨ds, hds, _, hdigits, _⟩ := Text.upperHex_width (show 0 < 4 by omega) hlt
    have hread := Text.readDigits_upperHex (show 0 < 4 by omega) n
    have hframes : Frames "" "" := by decide
    have htext : digitsAfterDollar ("$" ++ Text.upperHex 4 (target (address + 2) b.toNat)).toList =
        ds.map Text.upperDigit := by
      rw [hn, ← digitsAfterDollar_frames hframes hdigits, ← hds]
      simp
    have hdistance := target_distance address b
    cases hoperand
    rw [hn] at hdistance
    rw [hds] at hread
    simp only [operandBytes?, htext, hread]
    simp [hdistance]

/-- What is printed for operand bytes is enough to read them. -/
theorem operandBytes?_operand {mode : Mode} {address : Int} {bytes : List UInt8}
    (hlen : bytes.length = mode.operandSize) {operand : Operand}
    (h : operand? mode bytes (address + mode.length) = some operand) :
    operandBytes? mode address operand.text = some bytes := by
  cases mode with
  | implied => rw [List.length_eq_zero_iff.mp hlen]; rfl
  | accumulator => rw [List.length_eq_zero_iff.mp hlen]; rfl
  | relative => exact read_branch hlen h
  | absolute => exact read_word (by decide) hlen h
  | absoluteX => exact read_word (by decide) hlen h
  | absoluteY => exact read_word (by decide) hlen h
  | indirect => exact read_word (by decide) hlen h
  | immediate => exact read_byte (by decide) hlen h
  | zeroPage => exact read_byte (by decide) hlen h
  | zeroPageX => exact read_byte (by decide) hlen h
  | zeroPageY => exact read_byte (by decide) hlen h
  | indirectPlusY => exact read_byte (by decide) hlen h
  | indirectX => exact read_byte (by decide) hlen h
  | indirectY => exact read_byte (by decide) hlen h

/-- Only the 16 bits of the address bus matter to what is read. -/
theorem operandBytes?_congr (mode : Mode) {a b : Int} (h : a % 65536 = b % 65536)
    (operand : String) : operandBytes? mode a operand = operandBytes? mode b operand := by
  cases mode
  case relative =>
    have hdistance (target : Int) : (target - a - 2) % 256 = (target - b - 2) % 256 := by omega
    simp only [operandBytes?, hdistance]
  all_goals rfl

/-- Only the 16 bits of the address bus matter to what is printed. -/
theorem operand?_congr (mode : Mode) (bytes : List UInt8) {a b : Int}
    (h : a % 65536 = b % 65536) : operand? mode bytes a = operand? mode bytes b := by
  cases mode
  case relative =>
    have htarget (value : Nat) : target a value = target b value := by
      unfold target
      omega
    simp only [operand?, branch, htarget]
  all_goals rfl

end Cpu6502.Decode
