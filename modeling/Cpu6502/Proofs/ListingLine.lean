import Cpu6502.Instruction
import Cpu6502.Proofs.DeclarationReader
import Cpu6502.Proofs.OperandReader
import Cpu6502.Proofs.LineGrammar
import Cpu6502.Proofs.Trimming

namespace Cpu6502.ListingLine

/-- What a line shows of an instruction. -/
structure Shown where
  address : Int
  rawBytes : List UInt8
  mnemonic : String
  operand : String
  comment : String
  deriving DecidableEq, Repr

def shown (i : Instruction) : Shown :=
  { address := i.address, rawBytes := i.rawBytes, mnemonic := i.mnemonic, operand := i.operand
    comment := i.comment }

/-- The characters of a line from one index to another, both included. -/
def columns (line : List Char) (start stop : Nat) : List Char := (line.take (stop + 1)).drop start

/-- The bytes that pairs of digits spell, whatever blanks there are. -/
def readBytes (text : List Char) : Option (List UInt8) :=
  (Decode.littleEndian? (text.filter (· != ' '))).map List.reverse

def separator : List Char := [' ', ';', ' ']

def readComment (line : List Char) : String :=
  if columns line 32 34 = separator then .ofList (line.drop 35) else ""

/-- Reads a line by its columns. Mnemonic and operand have a blank between them. -/
def read (line : List Char) : Option Shown := do
  let address ← Text.readDigits 16 (columns line 1 4)
  let rawBytes ← readBytes (columns line 7 14)
  let code := Text.trimRight (columns line 17 31)
  return { address := address
           rawBytes := rawBytes
           mnemonic := .ofList (code.takeWhile (· != ' '))
           operand := .ofList ((code.dropWhile (· != ' ')).drop 1)
           comment := readComment line }

theorem columns_append {before text after : List Char} {start stop : Nat}
    (hstart : before.length = start) (hstop : start + text.length = stop + 1) :
    columns (before ++ text ++ after) start stop = text := by
  have htake : (before ++ text ++ after).take (stop + 1) = before ++ text :=
    List.take_left' (by rw [List.length_append]; omega)
  rw [columns, htake, List.drop_left' hstart]

/-- The last part of a line may leave columns free. -/
theorem columns_last {before text : List Char} {start stop : Nat} (hstart : before.length = start)
    (hstop : start + text.length ≤ stop + 1) : columns (before ++ text) start stop = text := by
  rw [columns, List.take_of_length_le (by rw [List.length_append]; omega), List.drop_left' hstart]

/-- An item that a list has once is found at one place. -/
theorem eq_length_of_getElem? {α : Type} {before after : List α} {x : α} (hbefore : x ∉ before)
    (hafter : x ∉ after) {k : Nat} (h : (before ++ x :: after)[k]? = some x) :
    k = before.length := by
  rcases Nat.lt_trichotomy k before.length with hlt | heq | hgt
  · rw [List.getElem?_append_left hlt] at h
    exact absurd (List.mem_of_getElem? h) hbefore
  · exact heq
  · obtain ⟨m, rfl⟩ : ∃ m, k = before.length + (m + 1) := ⟨k - before.length - 1, by omega⟩
    rw [List.getElem?_append_right (by omega), Nat.add_sub_cancel_left,
      List.getElem?_cons_succ] at h
    exact absurd (List.mem_of_getElem? h) hafter

/-- Characters of ASCII that can be seen, and blanks, but no semicolons. -/
def Clear (text : List Char) : Prop := ∀ c ∈ text, 0x20 ≤ c.toNat ∧ c.toNat ≤ 0x7E ∧ c ≠ ';'

/-- The same without blanks. -/
def Solid (text : List Char) : Prop := ∀ c ∈ text, 0x21 ≤ c.toNat ∧ c.toNat ≤ 0x7E ∧ c ≠ ';'

instance (text : List Char) : Decidable (Clear text) := List.decidableBAll _ text

instance (text : List Char) : Decidable (Solid text) := List.decidableBAll _ text

theorem clear_append {a b : List Char} : Clear (a ++ b) ↔ Clear a ∧ Clear b :=
  List.forall_mem_append

theorem Solid.clear {text : List Char} (h : Solid text) : Clear text := by
  intro c hc
  obtain ⟨hlow, hhigh, hne⟩ := h c hc
  exact ⟨by omega, hhigh, hne⟩

theorem Solid.not_blank {text : List Char} (h : Solid text) {c : Char} (hc : c ∈ text) :
    Text.isBlank c = false ∧ c ≠ ' ' := by
  obtain ⟨hlow, hhigh, _⟩ := h c hc
  constructor
  · simp [Text.isBlank]
    omega
  · rintro rfl
    exact absurd hlow (by decide)

theorem Clear.oneLine {text : List Char} (h : Clear text) : Declarations.OneLine text := by
  intro c hc
  obtain ⟨hlow, hhigh, _⟩ := h c hc
  simp [Text.isLineBreak]
  omega

theorem Clear.no_semicolon {text : List Char} (h : Clear text) : ';' ∉ text :=
  fun hm => (h _ hm).2.2 rfl

theorem clear_blanks (n : Nat) : Clear (List.replicate n ' ') := by
  intro c hc
  rw [(List.mem_replicate.mp hc).2]
  decide

theorem solid_upperDigits {ds : List Nat} (h : ∀ d ∈ ds, d < 16) :
    Solid (ds.map Text.upperDigit) := by
  have hall : ∀ d < 16, Solid [Text.upperDigit d] := by decide
  intro c hc
  obtain ⟨d, hd, rfl⟩ := List.mem_map.mp hc
  exact hall d (h d hd) _ (List.mem_singleton_self _)

theorem solid_mnemonic {text : List Char} (h : Line.MnemonicText text) :
    Solid text ∧ text ≠ [] ∧ text.length ≤ 3 := by
  obtain ⟨first, rest, rfl, hfirst, hrest, hlength⟩ := h
  refine ⟨?_, by simp, by rw [List.length_cons]; omega⟩
  have hall : ∀ c ∈ first :: rest, Line.Letter c ∨ Line.Digit c :=
    List.forall_mem_cons.mpr ⟨.inl hfirst, hrest⟩
  intro c hc
  have hrange : 0x30 ≤ c.toNat ∧ c.toNat ≤ 0x7A ∧ c.toNat ≠ 0x3B := by
    rcases hall c hc with h | h
    · have := h.range
      omega
    · have := h.range
      omega
  refine ⟨by omega, by omega, ?_⟩
  rintro rfl
  exact hrange.2.2 rfl

/-- What an instruction needs so that each part of its line keeps to its columns. -/
structure Listable (i : Instruction) : Prop where
  address_nonneg : 0 ≤ i.address
  address_lt : i.address < 65536
  bytes_ne : i.rawBytes ≠ []
  bytes_le : i.rawBytes.length ≤ 3
  mnemonic_text : Line.MnemonicText i.mnemonic.toList
  operand_solid : Solid i.operand.toList
  operand_le : i.operand.toList.length ≤ 7
  comment_clear : Clear i.comment.toList

/-- The digits of a byte. -/
def byteDigits (b : UInt8) : List Char := (Instruction.byteText b).toList

theorem byteDigits_eq (b : UInt8) :
    ∃ d e, byteDigits b = [Text.upperDigit d, Text.upperDigit e] ∧ d < 16 ∧ e < 16 ∧
      16 * d + e = b.toNat := by
  obtain ⟨ds, hds, hlength, hlt, hvalue⟩ :=
    Text.upperHex_width (show 0 < 2 by omega) (n := b.toNat) b.toNat_lt
  obtain ⟨d, e, rfl⟩ := List.length_eq_two.mp hlength
  simp only [Text.valueOf, Text.valueFrom, List.foldl_cons, List.foldl_nil] at hvalue
  exact ⟨d, e, hds, hlt d (by simp), hlt e (by simp), by omega⟩

theorem solid_byteDigits (b : UInt8) : Solid (byteDigits b) := by
  obtain ⟨d, e, hdigits, hd, he, _⟩ := byteDigits_eq b
  have hsolid : Solid ([d, e].map Text.upperDigit) := solid_upperDigits (by simp [hd, he])
  rwa [hdigits]

/-- Pairs of digits are read as bytes, of which the last comes first. -/
theorem littleEndian?_byteDigits (bytes : List UInt8) :
    Decode.littleEndian? (bytes.flatMap byteDigits) = some bytes.reverse := by
  induction bytes with
  | nil => rfl
  | cons b rest ih =>
    obtain ⟨d, e, hdigits, hd, he, hb⟩ := byteDigits_eq b
    have hread {x : Nat} (hx : x < 16) : Text.digitValue? 16 (Text.upperDigit x) = some x :=
      (Text.digitValue?_digitChar (by decide) hx).2
    simp [hdigits, Decode.littleEndian?, hread hd, hread he, ih, hb]

/-- The blanks between the bytes, and those behind them. -/
theorem byteColumn_toList (i : Instruction) :
    i.byteColumn.toList = [' '].intercalate (i.rawBytes.map byteDigits) ++
      List.replicate (3 * (3 - i.rawBytes.length)) ' ' := by
  have hbytes : (i.rawBytes.map Instruction.byteText).map String.toList =
      i.rawBytes.map byteDigits := by
    rw [List.map_map]
    rfl
  rw [Instruction.byteColumn, String.toList_append, String.toList_intercalate, hbytes,
    String.toList_ofList, String.toList_ofList]

theorem length_intercalate_bytes {bytes : List UInt8} (h : bytes ≠ []) :
    ([' '].intercalate (bytes.map byteDigits)).length + 1 = 3 * bytes.length := by
  have htwo (b : UInt8) : (byteDigits b).length = 2 := by
    obtain ⟨d, e, hdigits, _⟩ := byteDigits_eq b
    rw [hdigits]
    rfl
  induction bytes with
  | nil => exact absurd rfl h
  | cons b rest ih =>
    cases rest with
    | nil => simp [htwo]
    | cons b' rest =>
      have hrest := ih (by simp)
      simp only [List.map_cons, List.length_cons, List.intercalate_cons_cons, List.length_append,
        htwo, List.length_nil] at hrest ⊢
      omega

theorem filter_intercalate_bytes (bytes : List UInt8) :
    ([' '].intercalate (bytes.map byteDigits)).filter (· != ' ') = bytes.flatMap byteDigits := by
  have hdigits (b : UInt8) : (byteDigits b).filter (· != ' ') = byteDigits b :=
    List.filter_eq_self.mpr fun c hc => by simpa using ((solid_byteDigits b).not_blank hc).2
  have hblank : [' '].filter (· != ' ') = [] := by simp
  induction bytes with
  | nil => rfl
  | cons b rest ih =>
    cases rest with
    | nil => simp [hdigits]
    | cons b' rest =>
      rw [List.map_cons] at ih
      rw [List.map_cons, List.map_cons, List.intercalate_cons_cons, List.filter_append,
        List.filter_append, hdigits, hblank, ih, List.append_nil, ← List.flatMap_cons]

theorem readBytes_byteColumn (i : Instruction) :
    readBytes i.byteColumn.toList = some i.rawBytes := by
  have hblanks (n : Nat) : (List.replicate n ' ').filter (· != ' ') = [] := by simp
  rw [readBytes, byteColumn_toList, List.filter_append, filter_intercalate_bytes, hblanks,
    List.append_nil, littleEndian?_byteDigits, Option.map_some, List.reverse_reverse]

theorem clear_byteColumn (i : Instruction) : Clear i.byteColumn.toList := by
  rw [byteColumn_toList, clear_append]
  refine ⟨?_, clear_blanks _⟩
  intro c hc
  rcases Text.mem_intercalate hc with hc | ⟨digits, hdigits, hc⟩
  · rw [List.mem_singleton.mp hc]
    decide
  · obtain ⟨b, _, rfl⟩ := List.mem_map.mp hdigits
    exact (solid_byteDigits b).clear c hc

/-- The mnemonic, and the operand if there is one. -/
def assembly (i : Instruction) : List Char :=
  i.mnemonic.toList ++ if i.operand = "" then [] else ' ' :: i.operand.toList

/-- The columns before the mnemonic. -/
def front (i : Instruction) : List Char :=
  ['$'] ++ (Text.upperHex 4 i.address).toList ++ [':', ' '] ++ i.byteColumn.toList ++ [' ', ' ']

/-- The columns before a comment. -/
def padded (i : Instruction) : List Char :=
  front i ++ assembly i ++ List.replicate (15 - (assembly i).length) ' '

/-- The comment with what comes before it, if there is one. -/
def remark (i : Instruction) : List Char :=
  if i.comment = "" then []
  else List.replicate (15 - (assembly i).length) ' ' ++ separator ++ i.comment.toList

namespace Listable

variable {i : Instruction}

theorem length_byteColumn (h : Listable i) : i.byteColumn.toList.length = 8 := by
  have hlength := length_intercalate_bytes h.bytes_ne
  have hfit := h.bytes_le
  rw [byteColumn_toList, List.length_append, List.length_replicate]
  omega

/-- Four digits, whatever the address. -/
theorem address_digits (h : Listable i) :
    ∃ n : Nat, i.address = n ∧ (Text.upperHex 4 i.address).toList.length = 4 ∧
      Solid (Text.upperHex 4 i.address).toList := by
  have hlt := h.address_lt
  obtain ⟨n, hn⟩ := Int.eq_ofNat_of_zero_le h.address_nonneg
  obtain ⟨ds, hds, hlength, hdigits, _⟩ :=
    Text.upperHex_width (show 0 < 4 by omega) (n := n) (by omega)
  rw [hn, hds]
  exact ⟨n, rfl, by rw [List.length_map, hlength], solid_upperDigits hdigits⟩

theorem length_front (h : Listable i) : (front i).length = 17 := by
  obtain ⟨_, _, hlength, _⟩ := h.address_digits
  simp [front, hlength, h.length_byteColumn]

theorem clear_front (h : Listable i) : Clear (front i) := by
  obtain ⟨_, _, _, hdigits⟩ := h.address_digits
  have hdollar : Clear ['$'] := by decide
  have hcolon : Clear [':', ' '] := by decide
  have hblanks : Clear [' ', ' '] := by decide
  simp only [front, clear_append]
  exact ⟨⟨⟨⟨hdollar, hdigits.clear⟩, hcolon⟩, clear_byteColumn i⟩, hblanks⟩

theorem length_assembly (h : Listable i) : (assembly i).length ≤ 11 := by
  have hmnemonic := (solid_mnemonic h.mnemonic_text).2.2
  have hoperand := h.operand_le
  unfold assembly
  split
  · rw [List.append_nil]
    omega
  · rw [List.length_append, List.length_cons]
    omega

theorem clear_assembly (h : Listable i) : Clear (assembly i) := by
  have hmnemonic := (solid_mnemonic h.mnemonic_text).1.clear
  have hblank : Clear [' '] := by decide
  unfold assembly
  split
  · rwa [List.append_nil]
  · exact clear_append.mpr ⟨hmnemonic, clear_append.mpr ⟨hblank, h.operand_solid.clear⟩⟩

/-- Where the operand is left out, the mnemonic comes last. -/
theorem getLast_assembly (h : Listable i) (before : List Char) :
    ∀ c ∈ (before ++ assembly i).getLast?, Text.isBlank c = false := by
  obtain ⟨hmnemonic, hne, _⟩ := solid_mnemonic h.mnemonic_text
  obtain ⟨first, last, hsplit, hlast, hsolid⟩ :
      ∃ first last, assembly i = first ++ last ∧ last ≠ [] ∧ Solid last := by
    unfold assembly
    split
    · exact ⟨[], _, by simp, hne, hmnemonic⟩
    · rename_i hoperand
      refine ⟨i.mnemonic.toList ++ [' '], i.operand.toList, by simp, ?_, h.operand_solid⟩
      simpa using hoperand
  intro c hc
  rw [hsplit, ← List.append_assoc, List.getLast?_append_of_ne_nil _ hlast] at hc
  exact (hsolid.not_blank (List.mem_of_mem_getLast? hc)).1

theorem trimRight_assembly (h : Listable i) (before : List Char) (n : Nat) :
    Text.trimRight (before ++ assembly i ++ List.replicate n ' ') = before ++ assembly i := by
  refine Text.trimRight_eq_iff.mpr ⟨List.replicate n ' ', rfl, ?_, h.getLast_assembly before⟩
  intro c hc
  rw [(List.mem_replicate.mp hc).2]
  decide

theorem text_toList (h : Listable i) :
    i.text.toList = i.byteColumn.toList ++ [' ', ' '] ++ assembly i := by
  have htrim := h.trimRight_assembly (i.byteColumn.toList ++ [' ', ' '])
  rw [Instruction.text, String.toList_ofList]
  by_cases hoperand : i.operand = ""
  · rw [← htrim 1]
    simp [assembly, hoperand]
  · rw [← htrim 0]
    simp [assembly, hoperand]

theorem listingLine_toList (h : Listable i) :
    i.listingLine.toList = front i ++ assembly i ++ remark i := by
  have hcode : (i.addressText ++ ": " ++ i.text).toList = front i ++ assembly i := by
    simp [Instruction.addressText, front, h.text_toList]
  have hlength : (i.addressText ++ ": " ++ i.text).length = 17 + (assembly i).length := by
    rw [← String.length_toList, hcode, List.length_append, h.length_front]
  have hpad : 32 - (17 + (assembly i).length) = 15 - (assembly i).length := by omega
  unfold Instruction.listingLine remark
  by_cases hcomment : i.comment = ""
  · simp [hcomment, hcode]
  · have hne : i.comment.isEmpty = false := by simpa using hcomment
    simp only [hne, hcomment, Bool.false_eq_true, ↓reduceIte, String.toList_append, hlength,
      Instruction.commentColumn, hpad, String.toList_ofList]
    simp only [← String.toList_append, hcode]
    simp [separator]

theorem toList_of_no_comment (h : Listable i) (hcomment : i.comment = "") :
    i.listingLine.toList = front i ++ assembly i := by
  rw [h.listingLine_toList, remark, if_pos hcomment, List.append_nil]

theorem toList_of_comment (h : Listable i) (hcomment : i.comment ≠ "") :
    i.listingLine.toList = padded i ++ separator ++ i.comment.toList := by
  rw [h.listingLine_toList, remark, if_neg hcomment]
  simp [padded]

/-- No line is too long for its comment. -/
theorem length_padded (h : Listable i) : (padded i).length = 32 := by
  have := h.length_assembly
  rw [padded, List.length_append, List.length_append, List.length_replicate, h.length_front]
  omega

theorem columns_address (h : Listable i) :
    columns i.listingLine.toList 1 4 = (Text.upperHex 4 i.address).toList := by
  obtain ⟨_, _, hlength, _⟩ := h.address_digits
  have hline : i.listingLine.toList = ['$'] ++ (Text.upperHex 4 i.address).toList ++
      ([':', ' '] ++ i.byteColumn.toList ++ [' ', ' '] ++ assembly i ++ remark i) := by
    simp [h.listingLine_toList, front]
  rw [hline]
  exact columns_append rfl (by rw [hlength])

theorem columns_bytes (h : Listable i) :
    columns i.listingLine.toList 7 14 = i.byteColumn.toList := by
  obtain ⟨_, _, hlength, _⟩ := h.address_digits
  have hline : i.listingLine.toList =
      (['$'] ++ (Text.upperHex 4 i.address).toList ++ [':', ' ']) ++ i.byteColumn.toList ++
        ([' ', ' '] ++ assembly i ++ remark i) := by
    simp [h.listingLine_toList, front]
  rw [hline]
  exact columns_append (by simp [hlength]) (by rw [h.length_byteColumn])

theorem trimRight_columns (h : Listable i) :
    Text.trimRight (columns i.listingLine.toList 17 31) = assembly i := by
  have hlength := h.length_assembly
  by_cases hcomment : i.comment = ""
  · rw [h.toList_of_no_comment hcomment, columns_last h.length_front (by omega)]
    simpa using h.trimRight_assembly [] 0
  · have hline : i.listingLine.toList =
        front i ++ (assembly i ++ List.replicate (15 - (assembly i).length) ' ') ++
          (separator ++ i.comment.toList) := by
      simp [h.toList_of_comment hcomment, padded]
    rw [hline, columns_append h.length_front
      (by rw [List.length_append, List.length_replicate]; omega)]
    exact h.trimRight_assembly [] _

theorem readComment_eq (h : Listable i) : readComment i.listingLine.toList = i.comment := by
  have hlength := h.length_assembly
  by_cases hcomment : i.comment = ""
  · have hshort : columns (front i ++ assembly i) 32 34 = [] := by
      apply List.drop_eq_nil_of_le
      rw [List.length_take, List.length_append, h.length_front]
      omega
    rw [h.toList_of_no_comment hcomment, readComment, hshort, hcomment]
    rfl
  · have hbehind : (padded i ++ separator).length = 35 := by
      rw [List.length_append, h.length_padded]
      rfl
    rw [h.toList_of_comment hcomment, readComment, columns_append h.length_padded rfl, if_pos rfl,
      List.drop_left' hbehind, String.ofList_toList]

theorem read_listingLine (h : Listable i) : read i.listingLine.toList = some (shown i) := by
  obtain ⟨n, hn, _, _⟩ := h.address_digits
  have haddress := Text.readDigits_upperHex (show 0 < 4 by omega) n
  have hsolid := (solid_mnemonic h.mnemonic_text).1
  have hmnemonic : ∀ c ∈ i.mnemonic.toList, (c != ' ') = true := fun c hc => by
    simpa using (hsolid.not_blank hc).2
  have hcode : .ofList ((assembly i).takeWhile (· != ' ')) = i.mnemonic ∧
      .ofList (((assembly i).dropWhile (· != ' ')).drop 1) = i.operand := by
    unfold assembly
    rw [List.takeWhile_append_of_pos hmnemonic, List.dropWhile_append_of_pos hmnemonic]
    split
    · rename_i hoperand
      simp [hoperand]
    · simp
  rw [← hn] at haddress
  simp only [read, h.columns_address, h.columns_bytes, h.trimRight_columns, h.readComment_eq,
    readBytes_byteColumn, haddress, hcode.1, hcode.2]
  simp [shown, hn]

theorem clear_padded (h : Listable i) : Clear (padded i) := by
  rw [padded, clear_append, clear_append]
  exact ⟨⟨h.clear_front, h.clear_assembly⟩, clear_blanks _⟩

/-- Comments are set off at one index and nowhere else. -/
theorem separator_iff (h : Listable i) (k : Nat) :
    separator <+: i.listingLine.toList.drop k ↔ i.comment ≠ "" ∧ k = 32 := by
  have hsemicolon (hk : separator <+: i.listingLine.toList.drop k) :
      i.listingLine.toList[k + 1]? = some ';' := by
    obtain ⟨rest, hrest⟩ := hk
    rw [← List.getElem?_drop, ← hrest]
    rfl
  by_cases hcomment : i.comment = ""
  · have hclear := clear_append.mpr ⟨h.clear_front, h.clear_assembly⟩
    rw [h.toList_of_no_comment hcomment] at hsemicolon ⊢
    refine ⟨fun hk => absurd (List.mem_of_getElem? (hsemicolon hk)) hclear.no_semicolon, ?_⟩
    exact fun hne => absurd hcomment hne.1
  · have hblank : Clear [' '] := by decide
    have hbefore := (clear_append.mpr ⟨h.clear_padded, hblank⟩).no_semicolon
    have hafter := (clear_append.mpr ⟨hblank, h.comment_clear⟩).no_semicolon
    have hline : i.listingLine.toList =
        (padded i ++ [' ']) ++ ';' :: ([' '] ++ i.comment.toList) := by
      simp [h.toList_of_comment hcomment, separator]
    constructor
    · intro hk
      have hplace := hsemicolon hk
      rw [hline] at hplace
      have hindex := eq_length_of_getElem? hbefore hafter hplace
      rw [List.length_append, h.length_padded, List.length_singleton] at hindex
      exact ⟨hcomment, by omega⟩
    · rintro ⟨_, rfl⟩
      rw [h.toList_of_comment hcomment, List.append_assoc, List.drop_left' h.length_padded]
      exact List.prefix_append _ _

theorem oneLine (h : Listable i) : Declarations.OneLine i.listingLine.toList := by
  have hseparator : Declarations.OneLine separator := by decide
  by_cases hcomment : i.comment = ""
  · rw [h.toList_of_no_comment hcomment]
    exact (clear_append.mpr ⟨h.clear_front, h.clear_assembly⟩).oneLine
  · rw [h.toList_of_comment hcomment]
    simp only [Declarations.oneLine_append, h.clear_padded.oneLine, hseparator,
      h.comment_clear.oneLine, and_self]

theorem ne_nil (h : Listable i) : i.listingLine.toList ≠ [] := by
  simp [h.listingLine_toList, front]

end Listable

end Cpu6502.ListingLine
