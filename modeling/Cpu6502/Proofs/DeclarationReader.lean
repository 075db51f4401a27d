import Cpu6502.Declarations
import Cpu6502.Proofs.TextLines
import Cpu6502.Text.Numeral

namespace Cpu6502.Declarations

/-- An entry as it is written, with symbols that nothing is known of. -/
structure Reference where
  opcode : Nat
  enumerator : List Char
  length : Nat
  mode : List Char
  deriving DecidableEq, Repr

/-- What the four blocks say, each by itself. -/
structure Symbols where
  names : List String
  enumerators : List (List Char × Nat)
  modes : List (List Char)
  references : List Reference
  deriving DecidableEq, Repr

/-- What the entry of an opcode says. -/
structure Entry where
  opcode : Nat
  mnemonic : String
  mnemonicIndex : Nat
  length : Nat
  mode : Mode
  deriving DecidableEq, Repr

structure Content where
  names : List String
  enumerators : List (List Char × Nat)
  entries : List Entry
  deriving DecidableEq, Repr

/-- The lines of a text in groups, with empty lines between the groups. -/
def blocks (text : List Char) : List (List (List Char)) := (Text.lines text).splitOn []

/-- The lines between the braces of a block. -/
def inner (block : List (List Char)) : List (List Char) := (block.drop 1).dropLast

/-- An item without the comma that may stand between it and the next. -/
def dropComma (item : List Char) : List Char :=
  if item.getLast? = some ',' then item.dropLast else item

/-- The texts in quotes on a line. -/
def readNames (line : List Char) : List String :=
  (line.splitOn ',').map fun field => .ofList (field.drop 1).dropLast

def readEnumerator (item : List Char) : Option (List Char × Nat) :=
  match item.splitOn ' ' with
  | [name, _, number] => (Text.readDigits 10 number).map fun n => (name, n)
  | _ => none

/-- Each argument of an entry has a comma or a parenthesis at its end. -/
def readReference (item : List Char) : Option Reference :=
  match item.splitOn '(' with
  | [_, arguments] =>
    match arguments.splitOn ' ' with
    | [opcode, enumerator, length, mode] => do
      let opcode ← Text.readDigits 16 (opcode.drop 2).dropLast
      let length ← Text.readDigits 10 length.dropLast
      return { opcode := opcode, enumerator := enumerator.dropLast, length := length
               mode := mode.dropLast }
    | _ => none
  | _ => none

def readSymbols (text : List Char) : Option Symbols :=
  match (blocks text).map inner with
  | [[names], enumerators, modes, entries] => do
    let enumerators ← (enumerators.map dropComma).mapM readEnumerator
    let references ← (entries.map dropComma).mapM readReference
    return { names := readNames names, enumerators := enumerators, modes := modes.map dropComma
             references := references }
  | _ => none

/-- An entry whose symbols are looked up in the other blocks. An enumerator stands for the number
that it is given there, and one of the modes for the mode in its place. -/
def Symbols.resolve (s : Symbols) (r : Reference) : Option Entry := do
  let index ← s.enumerators.lookup r.enumerator
  let mnemonic ← s.names[index]?
  let mode ← (s.modes.zip Mode.all).lookup r.mode
  return { opcode := r.opcode, mnemonic := mnemonic, mnemonicIndex := index, length := r.length
           mode := mode }

/-- Reads declarations without knowing any of their identifiers. -/
def read (text : List Char) : Option Content := do
  let s ← readSymbols text
  let entries ← s.references.mapM s.resolve
  return { names := s.names, enumerators := s.enumerators, entries := entries }

/-- A line that `Text.lines` leaves as it is. -/
def OneLine (line : List Char) : Prop := ∀ c ∈ line, Text.isLineBreak c = false

instance (line : List Char) : Decidable (OneLine line) :=
  decidable_of_iff (line.all fun c => !Text.isLineBreak c) (by simp [OneLine])

theorem oneLine_append {a b : List Char} : OneLine (a ++ b) ↔ OneLine a ∧ OneLine b := by
  unfold OneLine
  exact List.forall_mem_append

/-- Lines as a text. -/
def unlines (lines : List (List Char)) : List Char := lines.flatMap fun line => line ++ ['\n']

theorem lines_unlines {lines : List (List Char)} (h : ∀ line ∈ lines, OneLine line) :
    Text.lines (unlines lines) = lines :=
  Text.lines_flatMap .lineFeed h

/-- The lines of items with commas between them. -/
def commaLines : List (List Char) → List (List Char)
  | [] => []
  | [item] => [item]
  | item :: next :: rest => (item ++ [',']) :: commaLines (next :: rest)

theorem unlines_commaLines {items : List (List Char)} (h : items ≠ []) :
    unlines (commaLines items) = [',', '\n'].intercalate items ++ ['\n'] := by
  induction items with
  | nil => exact absurd rfl h
  | cons item rest ih =>
    cases rest with
    | nil => simp [unlines, commaLines]
    | cons next rest =>
      have hrest := ih (by simp)
      simp only [unlines] at hrest
      simp [unlines, commaLines, hrest]

/-- The lines of a block. -/
def blockLines (header : List Char) (items : List (List Char)) : List (List Char) :=
  (header ++ [' ', '\x7b']) :: commaLines items ++ [['\x7d', ';']]

theorem block_toList (header : String) {items : List String} (h : items ≠ []) :
    (block header (",\n".intercalate items)).toList =
      unlines (blockLines header.toList (items.map String.toList)) := by
  have hitems := unlines_commaLines (show items.map String.toList ≠ [] by simpa using h)
  simp only [unlines] at hitems
  simp [block, blockLines, unlines, hitems, String.toList_intercalate]

theorem inner_blockLines (header : List Char) (items : List (List Char)) :
    inner (blockLines header items) = commaLines items := by
  simp [inner, blockLines]

/-- Commas are told from the items that end without one. -/
theorem dropComma_commaLines {items : List (List Char)}
    (h : ∀ item ∈ items, item.getLast? ≠ some ',') : (commaLines items).map dropComma = items := by
  induction items with
  | nil => rfl
  | cons item rest ih =>
    cases rest with
    | nil =>
      have := h item (by simp)
      simp [commaLines, dropComma, this]
    | cons next rest =>
      rw [commaLines, List.map_cons, ih fun other ho => h other (by simp [ho])]
      simp [dropComma]

theorem mem_commaLines {items : List (List Char)} {line : List Char} (h : line ∈ commaLines items) :
    ∃ item ∈ items, line = item ∨ line = item ++ [','] := by
  induction items with
  | nil => simp [commaLines] at h
  | cons item rest ih =>
    cases rest with
    | nil =>
      simp only [commaLines, List.mem_singleton] at h
      exact ⟨item, by simp, .inl h⟩
    | cons next rest =>
      rcases List.mem_cons.mp h with h | h
      · exact ⟨item, by simp, .inr h⟩
      · obtain ⟨other, hm, h⟩ := ih h
        exact ⟨other, List.mem_cons_of_mem _ hm, h⟩

/-- A text that can stand on a line of its own. -/
def Item (text : List Char) : Prop := text ≠ [] ∧ OneLine text

theorem mem_blockLines {header : List Char} {items : List (List Char)} (hheader : OneLine header)
    (hitems : ∀ item ∈ items, Item item) {line : List Char} (h : line ∈ blockLines header items) :
    Item line := by
  have hcomma : OneLine [','] := by decide
  have hopen : OneLine [' ', '\x7b'] := by decide
  have hclose : Item ['\x7d', ';'] := ⟨by simp, by decide⟩
  simp only [blockLines, List.cons_append, List.mem_cons, List.mem_append, List.not_mem_nil,
    or_false] at h
  rcases h with rfl | h | rfl
  · exact ⟨by simp, oneLine_append.mpr ⟨hheader, hopen⟩⟩
  · obtain ⟨item, hm, rfl | rfl⟩ := mem_commaLines h
    · exact hitems line hm
    · exact ⟨by simp, oneLine_append.mpr ⟨(hitems item hm).2, hcomma⟩⟩
  · exact hclose

/-- Blocks joined by line feeds are groups of lines with an empty line between two of them. -/
theorem unlines_intercalate (groups : List (List (List Char))) :
    ['\n'].intercalate (groups.map unlines) = unlines ([[]].intercalate groups) := by
  induction groups with
  | nil => rfl
  | cons group rest ih =>
    cases rest with
    | nil => simp
    | cons next rest =>
      have happend (a b : List (List Char)) : unlines (a ++ b) = unlines a ++ unlines b := by
        simp [unlines]
      have hempty : unlines [[]] = ['\n'] := rfl
      rw [List.map_cons] at ih
      rw [List.map_cons, List.map_cons, List.intercalate_cons_cons, List.intercalate_cons_cons,
        happend, happend, hempty, ih]

/-- Blocks of lines are read back from a text with empty lines between them. -/
theorem blocks_unlines {groups : List (List (List Char))} (hne : groups ≠ [])
    (h : ∀ group ∈ groups, ∀ line ∈ group, Item line) :
    blocks (unlines ([[]].intercalate groups)) = groups := by
  have hlines : ∀ line ∈ [[]].intercalate groups, OneLine line := by
    intro line hl
    rcases Text.mem_intercalate hl with hl | ⟨group, hg, hl⟩
    · rw [List.mem_singleton.mp hl]
      decide
    · exact (h group hg line hl).2
  rw [blocks, lines_unlines hlines]
  exact List.splitOn_intercalate [] (fun group hg hm => (h group hg [] hm).1 rfl) hne

end Cpu6502.Declarations
