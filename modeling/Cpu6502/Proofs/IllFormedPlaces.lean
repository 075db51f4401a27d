import Cpu6502.Proofs.IllFormedBytes
import Cpu6502.Proofs.TableEncoding
import Cpu6502.Proofs.TextLines
import Mathlib.Data.List.DropRight

namespace Cpu6502

section Behind

variable {α : Type} {p : α → Bool}

theorem rtakeWhile_append (first : List α) {second : List α} (h : ∀ a ∈ second, p a = true) :
    (first ++ second).rtakeWhile p = first.rtakeWhile p ++ second := by
  rw [List.rtakeWhile, List.reverse_append, List.takeWhile_append_of_pos (by simpa using h),
    List.reverse_append, List.reverse_reverse, List.rtakeWhile]

theorem rtakeWhile_append_of_mem (first : List α) {second : List α} {a : α} (ha : a ∈ second)
    (h : p a = false) : (first ++ second).rtakeWhile p = second.rtakeWhile p := by
  have hstop : (second.reverse.takeWhile p).length ≠ second.reverse.length := by
    intro hlength
    have hall := (List.takeWhile_prefix p).eq_of_length hlength
    rw [List.takeWhile_eq_self_iff] at hall
    rw [hall a (List.mem_reverse.mpr ha)] at h
    cases h
  rw [List.rtakeWhile, List.reverse_append, List.takeWhile_append, if_neg hstop, List.rtakeWhile]

end Behind

namespace Text

/-- The breaks in a text. A carriage return and the line feed behind it are one. -/
def breaks : List Char → Nat
  | [] => 0
  | '\r' :: '\n' :: rest => breaks rest + 1
  | c :: rest => if isLineBreak c then breaks rest + 1 else breaks rest

/-- What stands behind the last break of a text. -/
def lastPart (text : List Char) : List Char := text.rtakeWhile fun c => !isLineBreak c

/-- What stands behind the last line feed of a text. -/
def lastFed (text : List Char) : List Char := text.rtakeWhile (· != '\n')

/-- Only line feeds break the lines of a text, alone or with a carriage return before them. -/
def LineFed (text : List Char) : Prop :=
  ∀ before c after, text = before ++ c :: after → isLineBreak c = true →
    c = '\n' ∨ c = '\r' ∧ after.head? = some '\n'

variable {c : Char} {text rest : List Char}

theorem breaks_cons (hpair : c = '\r' → rest.head? ≠ some '\n') :
    breaks (c :: rest) = if isLineBreak c then breaks rest + 1 else breaks rest := by
  rw [breaks]
  rintro rest rfl rfl
  exact hpair rfl rfl

theorem breaks_eq_zero_iff : breaks text = 0 ↔ ∀ c ∈ text, isLineBreak c = false := by
  fun_induction breaks text with
  | case1 => simp
  | case2 rest ih => simp [show isLineBreak '\r' = true from rfl]
  | case3 c rest _ hbreak ih => simp [hbreak]
  | case4 c rest _ hplain ih => simp [hplain, ih]

theorem lineFed_nil : LineFed [] := by
  intro before c after h
  simp at h

theorem lineFed_cons : LineFed (c :: rest) ↔
    (isLineBreak c = true → c = '\n' ∨ c = '\r' ∧ rest.head? = some '\n') ∧ LineFed rest := by
  constructor
  · intro h
    refine ⟨h [] c rest rfl, ?_⟩
    intro before d after hrest
    exact h (c :: before) d after (by rw [hrest, List.cons_append])
  · rintro ⟨hfirst, hlater⟩ before d after htext
    cases before with
    | nil =>
      cases htext
      exact hfirst
    | cons e before =>
      cases htext
      exact hlater before d after rfl

/-- Behind a break, the last part of a text is that of what follows. -/
theorem lastPart_append (first : List Char) (h : breaks text ≠ 0) :
    lastPart (first ++ text) = lastPart text := by
  obtain ⟨c, hc, hbreak⟩ : ∃ c ∈ text, isLineBreak c = true := by
    simpa [breaks_eq_zero_iff] using h
  exact rtakeWhile_append_of_mem first hc (by simp [hbreak])

theorem lastPart_plain (first : List Char) (h : breaks text = 0) :
    lastPart (first ++ text) = lastPart first ++ text :=
  rtakeWhile_append first (by simpa [breaks_eq_zero_iff] using h)

theorem lastPart_eq_self (h : breaks text = 0) : lastPart text = text := lastPart_plain [] h

theorem lastPart_cons_of_break (h : isLineBreak c = true) :
    lastPart (c :: rest) = lastPart rest := by
  by_cases hrest : breaks rest = 0
  · have hfirst : lastPart [c] = [] := by simp [lastPart, List.rtakeWhile, h]
    rw [← List.singleton_append, lastPart_plain [c] hrest, hfirst, lastPart_eq_self hrest,
      List.nil_append]
  · exact lastPart_append [c] hrest

theorem length_extendFirst (c : Char) {ls : List (List Char)} (h : ls ≠ []) :
    (extendFirst c ls).length = ls.length := by
  cases ls with
  | nil => exact absurd rfl h
  | cons line rest => rfl

/-- The breaks are those at which a text is split into lines: a character behind it is in the line
after all of them, behind the last part. -/
theorem lines_concat (text : List Char) {d : Char} (hd : isLineBreak d = false) :
    ∃ full, full.length = breaks text ∧ lines (text ++ [d]) = full ++ [lastPart text ++ [d]] := by
  fun_induction breaks text with
  | case1 => exact ⟨[], rfl, lines_cons hd []⟩
  | case2 rest ih =>
    obtain ⟨full, hlength, hlines⟩ := ih
    refine ⟨[] :: full, by rw [List.length_cons, hlength], ?_⟩
    rw [List.cons_append, List.cons_append, lines_pair, hlines, lastPart_cons_of_break (by decide),
      lastPart_cons_of_break (by decide), List.cons_append]
  | case3 c rest hpair hbreak ih =>
    obtain ⟨full, hlength, hlines⟩ := ih
    have hhead : c = '\r' → (rest ++ [d]).head? ≠ some '\n' := by
      rintro rfl hfeed
      cases rest with
      | nil =>
        cases hfeed
        exact absurd hd (by decide)
      | cons e rest =>
        cases hfeed
        exact hpair rest rfl rfl
    refine ⟨[] :: full, by rw [List.length_cons, hlength], ?_⟩
    rw [List.cons_append, lines_cons_of_break hbreak hhead, hlines, lastPart_cons_of_break hbreak,
      List.cons_append]
  | case4 c rest hpair hplain ih =>
    rw [Bool.not_eq_true] at hplain
    obtain ⟨full, hlength, hlines⟩ := ih
    rw [List.cons_append, lines_cons hplain, hlines]
    by_cases hrest : breaks rest = 0
    · obtain rfl : full = [] := List.length_eq_zero_iff.mp (hlength.trans hrest)
      have hcons : breaks (c :: rest) = 0 :=
        breaks_eq_zero_iff.mpr (List.forall_mem_cons.mpr ⟨hplain, breaks_eq_zero_iff.mp hrest⟩)
      refine ⟨[], hlength, ?_⟩
      rw [lastPart_eq_self hcons, lastPart_eq_self hrest]
      rfl
    · have hfull : full ≠ [] := by
        rintro rfl
        exact hrest hlength.symm
      have hpart : lastPart (c :: rest) = lastPart rest := lastPart_append [c] hrest
      refine ⟨extendFirst c full, by rw [length_extendFirst c hfull, hlength], ?_⟩
      rw [extendFirst_append c hfull, hpart]

/-- There are as many breaks as line feeds, or more where anything else breaks a line. -/
theorem breaks_count (text : List Char) :
    text.count '\n' ≤ breaks text ∧ (breaks text = text.count '\n' ↔ LineFed text) := by
  fun_induction breaks text with
  | case1 => simp [lineFed_nil]
  | case2 rest ih =>
    obtain ⟨hle, hiff⟩ := ih
    have hcount : ('\r' :: '\n' :: rest).count '\n' = rest.count '\n' + 1 := by simp
    refine ⟨by omega, ?_⟩
    rw [hcount, Nat.add_right_cancel_iff, hiff, lineFed_cons, lineFed_cons]
    simp
  | case3 c rest hpair hbreak ih =>
    obtain ⟨hle, hiff⟩ := ih
    by_cases hfeed : c = '\n'
    · have hcount : (c :: rest).count '\n' = rest.count '\n' + 1 := by simp [hfeed]
      refine ⟨by omega, ?_⟩
      rw [hcount, Nat.add_right_cancel_iff, hiff, lineFed_cons]
      simp [hfeed]
    · have hcount : (c :: rest).count '\n' = rest.count '\n' := by simp [hfeed]
      refine ⟨by omega, ?_⟩
      rw [lineFed_cons]
      have hlone : ¬ (c = '\r' ∧ rest.head? = some '\n') := by
        rintro ⟨rfl, hhead⟩
        obtain ⟨after, rfl⟩ := List.head?_eq_some_iff.mp hhead
        exact hpair after rfl rfl
      constructor
      · intro hsame
        omega
      · rintro ⟨hfirst, _⟩
        rcases hfirst hbreak with h | h
        · exact absurd h hfeed
        · exact absurd h hlone
  | case4 c rest _ hplain ih =>
    obtain ⟨hle, hiff⟩ := ih
    have hfeed : c ≠ '\n' := by
      rintro rfl
      exact hplain (by decide)
    have hcount : (c :: rest).count '\n' = rest.count '\n' := by simp [hfeed]
    refine ⟨by omega, ?_⟩
    rw [hcount, hiff, lineFed_cons]
    simp [hplain]

/-- Where nothing but line feeds breaks, the last part stands behind the last of them. -/
theorem LineFed.lastPart_eq (h : LineFed text) : lastPart text = lastFed text := by
  have hsplit : text.rdropWhile (· != '\n') ++ lastFed text = text :=
    List.rdropWhile_append_rtakeWhile
  have hunfed : ∀ c ∈ lastFed text, c ≠ '\n' :=
    fun c hc => by simpa using List.mem_rtakeWhile_imp hc
  have hplain : ∀ c ∈ lastFed text, isLineBreak c = false := by
    intro c hc
    rw [← Bool.not_eq_true]
    intro hbreak
    obtain ⟨before, after, hpart⟩ := List.append_of_mem hc
    rw [hpart, ← List.append_assoc] at hsplit
    rcases h _ c after hsplit.symm hbreak with hfeed | ⟨_, hhead⟩
    · exact hunfed c hc hfeed
    · apply hunfed '\n' _ rfl
      rw [hpart]
      exact List.mem_append_right _ (List.mem_cons_of_mem _ (List.mem_of_head? hhead))
  have hbefore : lastPart (text.rdropWhile (· != '\n')) = [] := by
    rw [lastPart, List.rtakeWhile_eq_nil_iff]
    intro hne
    have hlast := List.rdropWhile_last_not _ _ hne
    rw [show (text.rdropWhile (· != '\n')).getLast hne = '\n' by simpa using hlast]
    decide
  calc lastPart text
      = lastPart (text.rdropWhile (· != '\n') ++ lastFed text) := by rw [hsplit]
    _ = lastPart (text.rdropWhile (· != '\n')) ++ lastFed text :=
        lastPart_plain _ (breaks_eq_zero_iff.mpr hplain)
    _ = lastFed text := by rw [hbefore, List.nil_append]

/-- The bytes of a text, one character after the other. -/
def utf8Bytes (text : List Char) : List UInt8 := text.flatMap String.utf8EncodeChar

theorem utf8Bytes_append (first second : List Char) :
    utf8Bytes (first ++ second) = utf8Bytes first ++ utf8Bytes second := List.flatMap_append

theorem data_utf8Encode (text : List Char) : text.utf8Encode.data.toList = utf8Bytes text := by
  rw [List.utf8Encode, List.data_toByteArray, utf8Bytes]

theorem size_utf8Encode (text : List Char) : text.utf8Encode.size = (utf8Bytes text).length := by
  rw [← data_utf8Encode, Array.length_toList, ByteArray.size_data]

theorem lineFeed_mem_encode : (0x0A : UInt8) ∈ String.utf8EncodeChar c ↔ c = '\n' := by
  have hvalue : c = '\n' ↔ c.val.toNat = 10 := by
    rw [← Char.toNat_inj]
    rfl
  have hbyte (n : Nat) : (0x0A : UInt8) = UInt8.ofNat n ↔ n % 256 = 10 := by
    rw [← UInt8.toNat_inj, UInt8.toNat_ofNat', eq_comm]
    rfl
  rw [hvalue, String.utf8EncodeChar]
  split_ifs <;> simp only [List.mem_cons, List.not_mem_nil, or_false, hbyte] <;> omega

theorem encode_lineFeed : String.utf8EncodeChar '\n' = [0x0A] := rfl

theorem count_utf8Bytes (text : List Char) : (utf8Bytes text).count 0x0A = text.count '\n' := by
  induction text with
  | nil => rfl
  | cons c rest ih =>
    rw [utf8Bytes, List.flatMap_cons, List.count_append, ← utf8Bytes, ih]
    by_cases hc : c = '\n'
    · rw [hc, encode_lineFeed, List.count_cons_self]
      simp [Nat.add_comm]
    · rw [List.count_eq_zero.mpr (mt lineFeed_mem_encode.mp hc), List.count_cons_of_ne hc,
        Nat.zero_add]

/-- What stands behind the last line feed, as bytes. -/
theorem rtakeWhile_utf8Bytes (text : List Char) :
    (utf8Bytes text).rtakeWhile (· != 0x0A) = utf8Bytes (lastFed text) := by
  induction text using List.reverseRecOn with
  | nil => rfl
  | append_singleton text c ih =>
    have hlast : utf8Bytes [c] = String.utf8EncodeChar c := List.flatMap_singleton _ _
    by_cases hc : c = '\n'
    · rw [lastFed, List.rtakeWhile_concat_neg _ _ _ (by simp [hc]), utf8Bytes_append, hlast, hc,
        encode_lineFeed, List.rtakeWhile_concat_neg _ _ _ (by decide)]
      rfl
    · have hplain : ∀ b ∈ String.utf8EncodeChar c, (b != 0x0A) = true := by
        intro b hb
        rw [bne_iff_ne]
        rintro rfl
        exact hc (lineFeed_mem_encode.mp hb)
      rw [lastFed, List.rtakeWhile_concat_pos _ _ _ (by simp [hc]), ← lastFed, utf8Bytes_append,
        hlast, rtakeWhile_append _ hplain, ih, utf8Bytes_append, hlast]

theorem length_utf8Bytes (text : List Char) : text.length ≤ (utf8Bytes text).length ∧
    ((utf8Bytes text).length = text.length ↔ ∀ c ∈ text, c.toNat < 128) := by
  induction text with
  | nil => simp [utf8Bytes]
  | cons c rest ih =>
    obtain ⟨hle, hiff⟩ := ih
    have hone : c.utf8Size = 1 ↔ c.toNat < 128 := by
      rw [Char.utf8Size_eq_one_iff, UInt32.le_iff_toNat_le]
      exact Nat.lt_succ_iff.symm
    have hpos := c.utf8Size_pos
    have hcons : (utf8Bytes (c :: rest)).length = c.utf8Size + (utf8Bytes rest).length := by
      rw [utf8Bytes, List.flatMap_cons, List.length_append, String.length_utf8EncodeChar,
        ← utf8Bytes]
    rw [hcons, List.length_cons, List.forall_mem_cons, ← hone, ← hiff]
    omega

/-- Bytes spell a text up to a byte at which no character starts. -/
structure StopsAt (bytes : ByteArray) (text : List Char) (byte : UInt8) : Prop where
  spelled : ∃ rest, bytes = text.utf8Encode ++ ⟨#[byte]⟩ ++ rest
  longest : ∀ c rest, bytes ≠ (text ++ [c]).utf8Encode ++ rest

/-- Bytes stop to spell a text where they are refused. -/
theorem stopsAt_of_error (bytes : ByteArray) (text : List Char)
    (h : decodeUtf8 bytes = .error text.utf8Encode.size)
    (htext : bytes.extract 0 text.utf8Encode.size = text.utf8Encode) :
    ∃ byte, bytes.data[text.utf8Encode.size]? = some byte ∧ StopsAt bytes text byte := by
  obtain ⟨hlt, hnone, _⟩ := decodeUtf8_error h
  generalize hposition : text.utf8Encode.size = position at htext hlt hnone
  have hsplit : bytes = text.utf8Encode ++ bytes.extract position bytes.size := by
    rw [← htext, ← ByteArray.extract_eq_extract_append_extract position (Nat.zero_le _) hlt.le,
      ByteArray.extract_zero_size]
  refine ⟨bytes[position], Array.getElem?_eq_getElem hlt,
    ⟨bytes.extract (position + 1) bytes.size, ?_⟩, ?_⟩
  · have hbyte : bytes.extract position (position + 1) = ⟨#[bytes[position]]⟩ :=
      ByteArray.extract_add_one hlt
    rw [ByteArray.append_assoc, ← hbyte,
      ← ByteArray.extract_eq_extract_append_extract (position + 1) (Nat.le_succ _) hlt, ← hsplit]
  · intro c rest hlonger
    rw [List.utf8Encode_append, ByteArray.append_assoc] at hlonger
    have hbehind : bytes.extract position bytes.size = [c].utf8Encode ++ rest :=
      (ByteArray.append_right_inj text.utf8Encode).mp (hsplit.symm.trans hlonger)
    rw [ByteArray.utf8DecodeChar?_eq_utf8DecodeChar?_extract, hbehind,
      List.utf8DecodeChar?_utf8Encode_singleton_append] at hnone
    cases hnone

/-- Bytes that no text is encoded as stop to spell one. -/
theorem exists_stopsAt {bytes : ByteArray} (h : ¬ bytes.IsValidUTF8) :
    ∃ text byte, StopsAt bytes text byte ∧ decodeUtf8 bytes = .error text.utf8Encode.size := by
  obtain ⟨position, hposition⟩ : ∃ position, decodeUtf8 bytes = .error position := by
    rw [decodeUtf8, String.fromUTF8?, dif_neg h]
    exact ⟨_, rfl⟩
  obtain ⟨hlt, _, ⟨text, htext⟩⟩ := decodeUtf8_error hposition
  obtain rfl : text.utf8Encode.size = position := by
    rw [← htext, ByteArray.size_extract, Nat.min_eq_left hlt.le, Nat.sub_zero]
  obtain ⟨byte, _, hstops⟩ := stopsAt_of_error bytes text hposition htext
  exact ⟨text, byte, hstops, hposition⟩

/-- Bytes that start with a character start with no other. -/
theorem encode_append_inj {c d : Char} {rest rest' : ByteArray}
    (h : [c].utf8Encode ++ rest = [d].utf8Encode ++ rest') : c = d ∧ rest = rest' := by
  have hdecode := congrArg (ByteArray.utf8DecodeChar? · 0) h
  simp only [List.utf8DecodeChar?_utf8Encode_singleton_append, Option.some.injEq] at hdecode
  subst hdecode
  exact ⟨rfl, (ByteArray.append_right_inj _).mp h⟩

theorem StopsAt.tail {bytes : ByteArray} {byte : UInt8} (h : StopsAt bytes (c :: text) byte) :
    ∃ rest, bytes = [c].utf8Encode ++ rest ∧ StopsAt rest text byte := by
  obtain ⟨back, hback⟩ := h.spelled
  refine ⟨text.utf8Encode ++ ⟨#[byte]⟩ ++ back, ?_, ⟨back, rfl⟩, ?_⟩
  · rw [hback, List.utf8Encode_cons, ByteArray.append_assoc, ByteArray.append_assoc,
      ByteArray.append_assoc]
  · intro d other hlonger
    apply h.longest d other
    rw [hback, List.utf8Encode_cons, ByteArray.append_assoc, ByteArray.append_assoc,
      ← ByteArray.append_assoc (a := text.utf8Encode), hlonger, List.cons_append,
      List.utf8Encode_cons (l := text ++ [d]), ByteArray.append_assoc]

/-- Bytes that start with a character do not stop at once. -/
theorem StopsAt.not_nil {rest : ByteArray} {byte : UInt8} :
    ¬ StopsAt ([c].utf8Encode ++ rest) [] byte := fun h => h.longest c rest rfl

/-- Bytes stop behind one text only. -/
theorem StopsAt.unique {bytes : ByteArray} {text text' : List Char} {byte byte' : UInt8}
    (h : StopsAt bytes text byte) (h' : StopsAt bytes text' byte') : text = text' := by
  induction text generalizing bytes text' with
  | nil =>
    cases text' with
    | nil => rfl
    | cons d text' =>
      obtain ⟨rest, rfl, _⟩ := h'.tail
      exact absurd h not_nil
  | cons c text ih =>
    obtain ⟨rest, rfl, hrest⟩ := h.tail
    cases text' with
    | nil => exact absurd h' not_nil
    | cons d text' =>
      obtain ⟨rest', hsame, hrest'⟩ := h'.tail
      obtain ⟨rfl, rfl⟩ := encode_append_inj hsame
      rw [ih hrest hrest']

theorem toList_loop (bytes : ByteArray) (i : Nat) (front : List UInt8) :
    ByteArray.toList.loop bytes i front = front.reverse ++ bytes.data.toList.drop i := by
  fun_induction ByteArray.toList.loop bytes i front with
  | case1 i front h ih =>
    have hi : i < bytes.data.toList.length := h
    have hbyte : bytes.get! i = bytes.data.toList[i] := getElem!_pos bytes.data i h
    rw [ih, List.drop_eq_getElem_cons hi, hbyte, List.reverse_cons, List.append_assoc,
      List.singleton_append]
  | case2 i front h =>
    rw [List.drop_eq_nil_of_le (Nat.le_of_not_lt h), List.append_nil]

theorem toList_eq_data (bytes : ByteArray) : bytes.toList = bytes.data.toList :=
  toList_loop bytes 0 []

end Text

namespace Table

open Text

variable {text : List Char}

theorem dropMark_cases (text : List Char) :
    dropMark text = text ∨ text = byteOrderMark :: dropMark text := by
  cases text with
  | nil => exact .inl rfl
  | cons c rest =>
    rw [dropMark]
    split
    · rename_i hmark
      exact .inr (congrArg (· :: rest) hmark)
    · exact .inl rfl

theorem breaks_dropMark (text : List Char) : breaks (dropMark text) = breaks text := by
  rcases dropMark_cases text with hsame | hmark
  · rw [hsame]
  · have hcons : breaks (byteOrderMark :: dropMark text) = breaks (dropMark text) :=
      breaks_cons fun h => absurd h (by decide)
    rw [← hcons, ← hmark]

/-- Behind the last line feed bytes count like characters if these are ASCII, as a mark is not. -/
theorem length_lastFed_eq_iff (h : LineFed text) :
    (lastFed text).utf8Encode.size = (lastPart (dropMark text)).length ↔
      ∀ c ∈ lastFed text, c.toNat < 128 := by
  rw [size_utf8Encode]
  rcases dropMark_cases text with hsame | hmark
  · rw [hsame, h.lastPart_eq]
    exact (length_utf8Bytes _).2
  · generalize dropMark text = rest at hmark
    subst hmark
    rw [(lineFed_cons.mp h).2.lastPart_eq]
    by_cases hfeed : '\n' ∈ rest
    · have hlast : lastFed (byteOrderMark :: rest) = lastFed rest :=
        rtakeWhile_append_of_mem [byteOrderMark] hfeed (by decide)
      rw [hlast]
      exact (length_utf8Bytes _).2
    · have hall : ∀ c ∈ rest, (c != '\n') = true := by
        intro c hc
        rw [bne_iff_ne]
        exact ne_of_mem_of_not_mem hc hfeed
      have hlast : lastFed rest = rest := rtakeWhile_append [] hall
      have hmarked : lastFed (byteOrderMark :: rest) = byteOrderMark :: rest :=
        rtakeWhile_append [byteOrderMark] hall
      have hthree : (utf8Bytes (byteOrderMark :: rest)).length = 3 + (utf8Bytes rest).length := by
        rw [← List.singleton_append, utf8Bytes_append, List.length_append]
        rfl
      have hle := (length_utf8Bytes rest).1
      rw [hlast, hmarked, hthree]
      constructor
      · intro hsame
        omega
      · intro hascii
        exact absurd (hascii byteOrderMark List.mem_cons_self) (by decide)

/-- The place that is reported for a byte counts line feeds, and bytes behind the last of them. -/
theorem bytePosition_eq {bytes : ByteArray} {byte : UInt8} (h : StopsAt bytes text byte) :
    bytePosition bytes text.utf8Encode.size =
      (text.count '\n' + 1, (lastFed text).utf8Encode.size + 1) := by
  obtain ⟨rest, hbytes⟩ := h.spelled
  have hbefore : bytes.toList.take text.utf8Encode.size = utf8Bytes text := by
    rw [toList_eq_data, hbytes, ByteArray.toList_data_append, size_utf8Encode,
      ByteArray.toList_data_append, data_utf8Encode, List.append_assoc, List.take_left']
    rfl
  have hlast : ((utf8Bytes text).reverse.takeWhile (· != 0x0A)).length =
      (lastFed text).utf8Encode.size := by
    rw [size_utf8Encode, ← rtakeWhile_utf8Bytes, List.rtakeWhile, List.length_reverse]
  simp only [bytePosition, hbefore, count_utf8Bytes, hlast]

theorem illFormed_eq {bytes : ByteArray} {byte : UInt8} (h : StopsAt bytes text byte)
    (filename : String) : illFormed filename bytes text.utf8Encode.size =
      { cause := .illFormedByte byte
        location := some
          { filename := filename
            line := (text.count '\n' + 1 : Nat)
            column := ((lastFed text).utf8Encode.size + 1 : Nat) } } := by
  obtain ⟨rest, hbytes⟩ := h.spelled
  have hbyte : bytes.data[text.utf8Encode.size]? = some byte := by
    rw [hbytes, ByteArray.append_assoc, ByteArray.data_append, ← ByteArray.size_data,
      Array.getElem?_append_right (Nat.le_refl _), ByteArray.data_append]
    simp
  simp only [illFormed, bytePosition_eq h, hbyte, Option.getD_some]

/-- The place of a byte that is no text counts line feeds and bytes. Lines and characters are
counted for all other errors, and the two agree behind plain text only. -/
theorem load_illFormed {bytes : ByteArray} (h : ¬ bytes.IsValidUTF8) (path : String) :
    ∃ (text : List Char) (byte : UInt8) (line column : Nat), StopsAt bytes text byte ∧
      (load path (.ok bytes)).result = .error (.table
        { cause := .illFormedByte byte
          location :=
            some { filename := (Path.fileName path).shown, line := line, column := column } }) ∧
      line = text.count '\n' + 1 ∧ column = (lastFed text).utf8Encode.size + 1 ∧
      (line = breaks (dropMark text) + 1 ∧ column = (lastPart (dropMark text)).length + 1 ↔
        LineFed text ∧ ∀ c ∈ lastFed text, c.toNat < 128) ∧
      ∀ c, isLineBreak c = false → ∃ full, full.length = breaks (dropMark text) ∧
        Text.lines (dropMark text ++ [c]) = full ++ [lastPart (dropMark text) ++ [c]] := by
  obtain ⟨text, byte, hstops, hdecode⟩ := exists_stopsAt h
  refine ⟨text, byte, _, _, hstops, ?_, rfl, rfl, ?_, fun c hc => lines_concat _ hc⟩
  · change (ofBytes (Path.fileName (Path.normalise path)).shown bytes).result = _
    simp only [ofBytes, hdecode, fileName_normalise, illFormed_eq hstops]
    rfl
  · rw [Nat.add_right_cancel_iff, Nat.add_right_cancel_iff, breaks_dropMark, eq_comm,
      (breaks_count text).2]
    exact and_congr_right length_lastFed_eq_iff

/-- A byte in the second line of plain text, at its tenth character. -/
theorem load_illFormed_plain :
    let bytes := "Immediate|ADC|69|2\nImplied|N".toUTF8 ++ ⟨#[0xFF]⟩ ++ "P|EA|1\n".toUTF8
    ¬ bytes.IsValidUTF8 ∧ ∃ text byte, StopsAt bytes text byte ∧
      (load "table.txt" (.ok bytes)).result = .error (.table
        { cause := .illFormedByte byte
          location := some { filename := "table.txt", line := 2, column := 10 } }) ∧
      breaks (dropMark text) + 1 = 2 ∧ (lastPart (dropMark text)).length + 1 = 10 := by
  intro bytes
  have hinvalid : ¬ bytes.IsValidUTF8 := by decide +kernel
  obtain ⟨text, byte, line, column, hstops, hload, hline, hcolumn, hplace, _⟩ :=
    load_illFormed hinvalid "table.txt"
  -- the text is known, since the bytes stop behind no other
  obtain ⟨_, _, hknown⟩ := stopsAt_of_error bytes
    "Immediate|ADC|69|2\nImplied|N".toList (by decide +kernel) (by decide +kernel)
  obtain rfl := hstops.unique hknown
  obtain rfl : line = 2 := hline
  obtain rfl : column = 10 := hcolumn
  have hfed : LineFed "Immediate|ADC|69|2\nImplied|N".toList :=
    (breaks_count _).2.mp (by decide +kernel)
  obtain ⟨hbreaks, hlast⟩ := hplace.mpr ⟨hfed, by simp [lastFed, List.rtakeWhile]⟩
  exact ⟨hinvalid, _, byte, hstops, hload, hbreaks.symm, hlast.symm⟩

/-- A mark, a carriage return and a character of two bytes, in front of a byte that has its place in
the second line at the fourth character. -/
theorem load_illFormed_misplaced :
    let bytes : ByteArray :=
      ⟨#[0xEF, 0xBB, 0xBF, 0x23, 0x20, 0x6F, 0x6B, 0x0D, 0x23, 0x20, 0xC3, 0xA9, 0xFF]⟩
    let text := "\ufeff# ok\r# é".toList
    StopsAt bytes text 0xFF ∧
    (load "t.txt" (.ok bytes)).result = .error (.table
      { cause := .illFormedByte 0xFF
        location := some { filename := "t.txt", line := 1, column := 13 } }) ∧
    breaks (dropMark text) + 1 = 2 ∧ (lastPart (dropMark text)).length + 1 = 4 := by
  intro bytes text
  have hstops : StopsAt bytes text 0xFF := by
    obtain ⟨byte, hbyte, hstops⟩ := stopsAt_of_error bytes text (by decide +kernel)
      (by decide +kernel)
    have hff : bytes.data[text.utf8Encode.size]? = some 0xFF := by decide +kernel
    rw [hbyte, Option.some.injEq] at hff
    exact hff ▸ hstops
  exact ⟨hstops, by decide +kernel, by decide +kernel, by decide +kernel⟩

end Table

end Cpu6502
