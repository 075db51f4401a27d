import Cpu6502.Proofs.DeclarationReader
import Cpu6502.Proofs.DigitText
import Cpu6502.Proofs.LineGrammar

namespace Cpu6502.Declarations

/-- Letters and digits of ASCII, and underscores. -/
def Word (text : List Char) : Prop := ∀ c ∈ text, Line.Letter c ∨ Line.Digit c ∨ c = '_'

theorem word_iff {text : List Char} :
    Word text ↔ text.all (fun c => c.isAlphanum || c == '_') = true := by
  simp only [Word, List.all_eq_true, Bool.or_eq_true, Line.isAlphanum_iff, beq_iff_eq, or_assoc]

theorem Word.not_mem {text : List Char} (h : Word text) {c : Char}
    (hc : (c.isAlphanum || c == '_') = false) : c ∉ text := by
  intro hm
  have := List.all_eq_true.mp (word_iff.mp h) c hm
  rw [hc] at this
  cases this

theorem Word.append {a b : List Char} (ha : Word a) (hb : Word b) : Word (a ++ b) := by
  intro c hc
  rcases List.mem_append.mp hc with hc | hc
  · exact ha c hc
  · exact hb c hc

theorem Word.oneLine {text : List Char} (h : Word text) : OneLine text := by
  intro c hc
  have hrange : 0x30 ≤ c.toNat ∧ c.toNat ≤ 0x7A := by
    rcases h c hc with h | h | rfl
    · have := h.range
      omega
    · have := h.range
      omega
    · decide
  simp [Text.isLineBreak]
  omega

theorem word_mnemonic {text : List Char} (h : Line.MnemonicText text) : Word text := by
  obtain ⟨first, rest, rfl, hfirst, hrest, _⟩ := h
  intro c hc
  rcases List.mem_cons.mp hc with rfl | hc
  · exact .inl hfirst
  · rcases hrest c hc with hc | hc
    · exact .inl hc
    · exact .inr (.inl hc)

theorem word_camelName (mode : Mode) : Word mode.camelName.toList := by
  apply word_iff.mpr
  cases mode <;> decide

theorem word_toDigits {base : Nat} (hb : 1 < base) (hb' : base ≤ 16) (n : Nat) :
    Word (Nat.toDigits base n) := by
  have hdigit : ∀ d < 16, (Nat.digitChar d).isAlphanum = true := by decide
  obtain ⟨ds, hds, _, hlt, _⟩ := Text.toDigits_digits hb n
  rw [hds]
  apply word_iff.mpr
  simp only [List.all_map, List.all_eq_true, Function.comp, Bool.or_eq_true]
  intro d hd
  have := hlt d hd
  exact .inl (hdigit d (by omega))

end Cpu6502.Declarations

namespace Cpu6502

/-- Identifiers of letters, digits and underscores alone. They may be empty. -/
structure Identifiers.Plain (ids : Identifiers) : Prop where
  mnemonicArray : Declarations.Word ids.mnemonicArray.toList
  mnemonicEnum : Declarations.Word ids.mnemonicEnum.toList
  enumeratorSuffix : Declarations.Word ids.enumeratorSuffix.toList
  modeEnum : Declarations.Word ids.modeEnum.toList
  entryType : Declarations.Word ids.entryType.toList
  tableArray : Declarations.Word ids.tableArray.toList

theorem Identifiers.plain_default : ({} : Identifiers).Plain := by
  constructor
  all_goals exact Declarations.word_iff.mpr (by decide)

namespace Declarations

variable {ids : Identifiers}

theorem word_mnemonicEnumerator (h : ids.Plain) {name : String} (hname : Word name.toList) :
    Word (ids.mnemonicEnumerator name).toList := by
  rw [Identifiers.mnemonicEnumerator, String.toList_append]
  exact hname.append h.enumeratorSuffix

theorem word_modeEnumerator (h : ids.Plain) (mode : Mode) :
    Word (ids.modeEnumerator mode).toList := by
  have hscore : Word "_".toList := word_iff.mpr (by decide)
  simp only [Identifiers.modeEnumerator, String.toList_append]
  exact (h.modeEnum.append hscore).append (word_camelName mode)

theorem mnemonicEnumerator_inj {a b : String} :
    (ids.mnemonicEnumerator a).toList = (ids.mnemonicEnumerator b).toList ↔ a = b := by
  simp [Identifiers.mnemonicEnumerator, String.toList_inj]

theorem modeEnumerator_inj {a b : Mode} :
    (ids.modeEnumerator a).toList = (ids.modeEnumerator b).toList ↔ a = b := by
  have hall : ∀ a ∈ Mode.all, ∀ b ∈ Mode.all, a.camelName = b.camelName → a = b := by decide
  constructor
  · intro h
    apply hall a a.mem_all b b.mem_all
    simpa [Identifiers.modeEnumerator, String.toList_inj] using h
  · intro h
    rw [h]

/-- The line of all names. -/
def namesLine (names : List String) : List Char :=
  [','].intercalate (names.map fun name => '"' :: name.toList ++ ['"'])

theorem readNames_namesLine {names : List String} (hne : names ≠ [])
    (h : ∀ name ∈ names, Word name.toList) : readNames (namesLine names) = names := by
  have hsplit : (namesLine names).splitOn ',' =
      names.map fun name => '"' :: name.toList ++ ['"'] := by
    apply List.splitOn_intercalate
    · intro field hfield
      obtain ⟨name, hname, rfl⟩ := List.mem_map.mp hfield
      simpa using (h name hname).not_mem (c := ',') rfl
    · simpa using hne
  rw [readNames, hsplit, List.map_map]
  apply List.map_id''
  intro name
  simp

theorem readEnumerator_line {name : List Char} (h : Word name) (n : Nat) :
    readEnumerator (name ++ [' ', '=', ' '] ++ Nat.toDigits 10 n) = some (name, n) := by
  have hsplit : (name ++ [' ', '=', ' '] ++ Nat.toDigits 10 n).splitOn ' ' =
      [name, ['='], Nat.toDigits 10 n] := by
    apply (Line.splitOn_eq_iff (by simp)).mpr
    refine ⟨by simp, ?_⟩
    simp only [List.mem_cons, List.not_mem_nil, or_false, forall_eq_or_imp, forall_eq]
    exact ⟨h.not_mem rfl, by decide,
      (word_toDigits (by omega) (by omega) n).not_mem rfl⟩
  rw [readEnumerator, hsplit]
  simp [Text.readDigits_toDigits]

/-- The arguments of an entry, each with what is printed right after it. -/
def entryArguments (hex name length mode : List Char) : List (List Char) :=
  ['0' :: 'x' :: hex ++ [','], name ++ [','], length ++ [','], mode ++ [')']]

def entryText (type hex name length mode : List Char) : List Char :=
  ['('].intercalate [type, [' '].intercalate (entryArguments hex name length mode)]

theorem not_mem_entryArguments {hex name length mode : List Char} (hhex : Word hex)
    (hname : Word name) (hlength : Word length) (hmode : Word mode) {c : Char}
    (hc : (c.isAlphanum || c == '_') = false) (hcomma : c ≠ ',') (hclose : c ≠ ')') :
    ∀ argument ∈ entryArguments hex name length mode, c ∉ argument := by
  have hzero : c ≠ '0' ∧ c ≠ 'x' := by
    constructor
    all_goals
      intro he
      subst he
      exact absurd hc (by decide)
  simp [entryArguments, hhex.not_mem hc, hname.not_mem hc, hlength.not_mem hc, hmode.not_mem hc,
    hcomma, hclose, hzero]

/-- An entry has one parenthesis that opens, and a blank between two arguments. -/
theorem splitOn_entryText {type name mode : List Char} (htype : Word type) (hname : Word name)
    (hmode : Word mode) (opcode length : Nat) :
    ∃ arguments,
      (entryText type (Nat.toDigits 16 opcode) name (Nat.toDigits 10 length) mode).splitOn '(' =
        [type, arguments] ∧
      arguments.splitOn ' ' =
        entryArguments (Nat.toDigits 16 opcode) name (Nat.toDigits 10 length) mode := by
  have hhex := word_toDigits (show 1 < 16 by omega) (by omega) opcode
  have hlength := word_toDigits (show 1 < 10 by omega) (by omega) length
  have hnot {c : Char} := not_mem_entryArguments (c := c) hhex hname hlength hmode
  refine ⟨[' '].intercalate
    (entryArguments (Nat.toDigits 16 opcode) name (Nat.toDigits 10 length) mode), ?_, ?_⟩
  · apply (Line.splitOn_eq_iff (by simp)).mpr
    refine ⟨rfl, ?_⟩
    simp only [List.mem_cons, List.not_mem_nil, or_false, forall_eq_or_imp, forall_eq]
    refine ⟨htype.not_mem rfl, ?_⟩
    intro hm
    rcases Text.mem_intercalate hm with hm | ⟨argument, hargument, hm⟩
    · simp at hm
    · exact hnot rfl (by simp) (by simp) argument hargument hm
  · apply List.splitOn_intercalate
    · exact hnot rfl (by simp) (by simp)
    · simp [entryArguments]

theorem readReference_entryText {type name mode : List Char} (htype : Word type)
    (hname : Word name) (hmode : Word mode) (opcode length : Nat) :
    readReference (entryText type (Nat.toDigits 16 opcode) name (Nat.toDigits 10 length) mode) =
      some { opcode := opcode, enumerator := name, length := length, mode := mode } := by
  obtain ⟨arguments, hitem, harguments⟩ := splitOn_entryText htype hname hmode opcode length
  simp only [readReference, hitem, harguments]
  simp [entryArguments, Text.readDigits_toDigits]

theorem enumeratorLine_toList (ids : Identifiers) (item : String × Nat) :
    (enumeratorLine ids item).toList =
      (ids.mnemonicEnumerator item.1).toList ++ [' ', '=', ' '] ++ Nat.toDigits 10 item.2 := by
  simp [enumeratorLine]

theorem entry_toList {row : Row} {opcode length : Nat} (hopcode : row.record.opcode = opcode)
    (hlength : row.record.length = length) :
    (entry ids row).toList = entryText ids.entryType.toList (Nat.toDigits 16 opcode)
      (ids.mnemonicEnumerator row.record.mnemonic).toList (Nat.toDigits 10 length)
      (ids.modeEnumerator row.record.mode).toList := by
  simp [entry, entryText, entryArguments, hopcode, hlength]

theorem toDigits_ne_nil {base : Nat} (hb : 1 < base) (n : Nat) : Nat.toDigits base n ≠ [] := by
  obtain ⟨ds, hds, hne, _⟩ := Text.toDigits_digits hb n
  simpa [hds] using hne

/-- A line that ends in a word ends in no comma. -/
theorem item_of_word {front back : List Char} (hfront : OneLine front) (hback : Word back)
    (hne : back ≠ []) : Item (front ++ back) ∧ (front ++ back).getLast? ≠ some ',' := by
  refine ⟨⟨by simp [hne], oneLine_append.mpr ⟨hfront, hback.oneLine⟩⟩, ?_⟩
  intro hlast
  have hcomma : back.getLast? = some ',' := by
    cases hb : back.getLast? with
    | none => exact absurd (List.getLast?_eq_none_iff.mp hb) hne
    | some c => simpa [List.getLast?_append, hb] using hlast
  exact hback.not_mem rfl (List.mem_of_getLast? hcomma)

theorem item_enumeratorLine (hids : ids.Plain) {item : String × Nat} (hname : Word item.1.toList) :
    Item (enumeratorLine ids item).toList ∧
      (enumeratorLine ids item).toList.getLast? ≠ some ',' := by
  have hequals : OneLine [' ', '=', ' '] := by decide
  rw [enumeratorLine_toList]
  exact item_of_word (oneLine_append.mpr ⟨(word_mnemonicEnumerator hids hname).oneLine, hequals⟩)
    (word_toDigits (by omega) (by omega) item.2) (toDigits_ne_nil (by omega) item.2)

theorem item_modeEnumerator (hids : ids.Plain) (mode : Mode) :
    Item (ids.modeEnumerator mode).toList ∧
      (ids.modeEnumerator mode).toList.getLast? ≠ some ',' := by
  have hempty : OneLine [] := by decide
  have hne : (ids.modeEnumerator mode).toList ≠ [] := by
    simp only [Identifiers.modeEnumerator, String.toList_append]
    simp
  exact item_of_word hempty (word_modeEnumerator hids mode) hne

theorem item_entryText {type hex name length mode : List Char} (htype : Word type) (hhex : Word hex)
    (hname : Word name) (hlength : Word length) (hmode : Word mode) :
    Item (entryText type hex name length mode) ∧
      (entryText type hex name length mode).getLast? ≠ some ',' := by
  have hline : entryText type hex name length mode =
      type ++ ['(', '0', 'x'] ++ hex ++ [',', ' '] ++ name ++ [',', ' '] ++ length ++ [',', ' '] ++
        mode ++ [')'] := by
    simp [entryText, entryArguments]
  have hopen : OneLine ['(', '0', 'x'] := by decide
  have hcomma : OneLine [',', ' '] := by decide
  have hclose : OneLine [')'] := by decide
  rw [hline]
  refine ⟨⟨by simp, ?_⟩, ?_⟩
  · simp only [oneLine_append, htype.oneLine, hhex.oneLine, hname.oneLine, hlength.oneLine,
      hmode.oneLine, hopen, hcomma, hclose, and_self]
  · rw [List.getLast?_concat]
    decide

theorem item_namesLine {names : List String} (hne : names ≠ [])
    (h : ∀ name ∈ names, Word name.toList) :
    Item (namesLine names) := by
  have hquote : OneLine ['"'] := by decide
  constructor
  · cases names with
    | nil => exact absurd rfl hne
    | cons name rest => cases rest <;> simp [namesLine, List.intercalate_cons_cons]
  · intro c hc
    rcases Text.mem_intercalate hc with hc | ⟨field, hfield, hc⟩
    · rw [List.mem_singleton.mp hc]
      decide
    · obtain ⟨name, hname, rfl⟩ := List.mem_map.mp hfield
      have hfield : OneLine (['"'] ++ name.toList ++ ['"']) := by
        simp only [oneLine_append, hquote, (h name hname).oneLine, and_self]
      exact hfield c hc

theorem oneLine_headers (hids : ids.Plain) :
    OneLine ("const char " ++ ids.mnemonicArray ++ "[][4] =").toList ∧
      OneLine ("enum " ++ ids.mnemonicEnum).toList ∧ OneLine ("enum " ++ ids.modeEnum).toList ∧
      OneLine (ids.entryType ++ " " ++ ids.tableArray ++ "[256] =").toList := by
  have hconst : OneLine "const char ".toList := by decide
  have hsize : OneLine "[][4] =".toList := by decide
  have henum : OneLine "enum ".toList := by decide
  have hblank : OneLine " ".toList := by decide
  have hcount : OneLine "[256] =".toList := by decide
  simp only [String.toList_append, oneLine_append, hids.mnemonicArray.oneLine,
    hids.mnemonicEnum.oneLine, hids.modeEnum.oneLine, hids.entryType.oneLine,
    hids.tableArray.oneLine, hconst, hsize, henum, hblank, hcount, and_self]

/-- A pair is found under the image of its key. -/
theorem lookup_map {α β γ : Type} [BEq α] [LawfulBEq α] [BEq β] [LawfulBEq β] {f : α → β}
    (hf : ∀ a b, f a = f b ↔ a = b) (pairs : List (α × γ)) (a : α) :
    (pairs.map fun p => (f p.1, p.2)).lookup (f a) = pairs.lookup a := by
  induction pairs with
  | nil => rfl
  | cons p rest ih =>
    have hkey : (f a == f p.1) = (a == p.1) := by
      rw [Bool.eq_iff_iff, beq_iff_eq, beq_iff_eq, hf]
    rw [List.map_cons, List.lookup_cons, List.lookup_cons, hkey, ih]

theorem lookup_zipIdx {α : Type} [BEq α] [LawfulBEq α] (names : List α) (name : α) (k : Nat) :
    (names.zipIdx k).lookup name = (names.idxOf? name).map (· + k) := by
  induction names generalizing k with
  | nil => rfl
  | cons head rest ih =>
    rw [List.zipIdx_cons, List.lookup_cons, List.idxOf?_cons, ih, BEq.comm (a := name)]
    cases head == name with
    | true => simp
    | false =>
      have hshift : (fun i => i + (k + 1)) = (fun i => i + k) ∘ fun i => i + 1 := by
        funext i
        simp only [Function.comp]
        omega
      simp [hshift]

/-- Where every image of an item is read, all of them are. -/
theorem mapM_map_some {α β γ : Type} {f : α → β} {g : β → Option γ} {h : α → γ} {items : List α}
    (hread : ∀ a ∈ items, g (f a) = some (h a)) : (items.map f).mapM g = some (items.map h) := by
  induction items with
  | nil => rfl
  | cons a rest ih =>
    have hrest := ih fun b hb => hread b (by simp [hb])
    simp [List.mapM_cons, hread a (by simp), hrest]

/-- The enumerators of the mnemonics with their values. -/
def enumerators (mnemonics : Mnemonics) (ids : Identifiers) : List (List Char × Nat) :=
  mnemonics.items.map fun item => ((ids.mnemonicEnumerator item.1).toList, item.2)

theorem lookup_enumerators {mnemonics : Mnemonics} {name : String} {i : Nat}
    (h : mnemonics.indexOf? name = some i) :
    (enumerators mnemonics ids).lookup (ids.mnemonicEnumerator name).toList = some i := by
  have hfound := lookup_map (f := fun name => (ids.mnemonicEnumerator name).toList)
    (fun _ _ => mnemonicEnumerator_inj) mnemonics.items name
  rw [enumerators, hfound, Mnemonics.items, lookup_zipIdx]
  rw [Mnemonics.indexOf?] at h
  simp [h]

theorem lookup_modes (mode : Mode) :
    ((Mode.all.map fun m => (ids.modeEnumerator m).toList).zip Mode.all).lookup
      (ids.modeEnumerator mode).toList = some mode := by
  have hfound := lookup_map (f := fun mode => (ids.modeEnumerator mode).toList)
    (fun _ _ => modeEnumerator_inj) (Mode.all.zip Mode.all) mode
  have hmode : (Mode.all.zip Mode.all).lookup mode = some mode := by cases mode <;> rfl
  rw [← hmode, ← hfound]
  rfl

theorem names_ne_nil (mnemonics : Mnemonics) : mnemonics.names ≠ [] :=
  List.ne_nil_of_mem mnemonics.unknown_mem

end Declarations

end Cpu6502
