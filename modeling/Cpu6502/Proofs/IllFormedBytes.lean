import Cpu6502.Text.Utf8

namespace Cpu6502.Text

theorem isValidUTF8_char {bytes : ByteArray} {position : Nat} {c : Char}
    (h : bytes.utf8DecodeChar? position = some c) :
    (bytes.extract position (position + c.utf8Size)).IsValidUTF8 := by
  have hfirst := h
  rw [ByteArray.utf8DecodeChar?_eq_utf8DecodeChar?_extract] at hfirst
  have hbytes := String.toByteArray_utf8EncodeChar_of_utf8DecodeChar?_eq_some hfirst
  have hle := ByteArray.le_size_of_utf8DecodeChar?_eq_some h
  rw [ByteArray.extract_extract, Nat.add_zero, Nat.min_eq_left hle,
    ← List.utf8Encode_singleton] at hbytes
  exact hbytes ▸ ByteArray.isValidUTF8_utf8Encode

theorem firstIllFormed_spec {bytes : ByteArray} {start : Nat} (h : start ≤ bytes.size) :
    start ≤ firstIllFormed bytes start ∧ firstIllFormed bytes start ≤ bytes.size ∧
      bytes.utf8DecodeChar? (firstIllFormed bytes start) = none ∧
      (bytes.extract start (firstIllFormed bytes start)).IsValidUTF8 := by
  fun_induction firstIllFormed bytes start with
  | case1 start hnone => exact ⟨Nat.le_refl _, h, hnone, by simp⟩
  | case2 start c hc _ _ ih =>
    have hle := ByteArray.le_size_of_utf8DecodeChar?_eq_some hc
    obtain ⟨hstart, hend, hnone, hvalid⟩ := ih hle
    refine ⟨by omega, hend, hnone, ?_⟩
    rw [ByteArray.extract_eq_extract_append_extract (start + c.utf8Size) (by omega) hstart]
    exact (isValidUTF8_char hc).append hvalid

/-- Bytes that spell no text have a first one that spells none, behind a text. -/
theorem decodeUtf8_error {bytes : ByteArray} {position : Nat}
    (h : decodeUtf8 bytes = .error position) :
    position < bytes.size ∧ bytes.utf8DecodeChar? position = none ∧
      (bytes.extract 0 position).IsValidUTF8 := by
  unfold decodeUtf8 at h
  split at h
  · cases h
  · rename_i hinvalid
    cases h
    obtain ⟨_, hle, hnone, hvalid⟩ := firstIllFormed_spec (Nat.zero_le bytes.size)
    refine ⟨?_, hnone, hvalid⟩
    apply Nat.lt_of_le_of_ne hle
    intro hall
    rw [hall, ByteArray.extract_zero_size] at hvalid
    simp [String.fromUTF8?, hvalid] at hinvalid

end Cpu6502.Text
