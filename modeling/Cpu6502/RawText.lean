import Cpu6502.Text.Quoted

namespace Cpu6502

/-- A character, or a byte that belongs to none. -/
inductive Symbol where
  | char (c : Char)
  | byte (b : UInt8)
  deriving DecidableEq, Repr

namespace Symbol

def char? : Symbol → Option Char
  | char c => some c
  | byte _ => none

/-- The number of bytes. -/
def size : Symbol → Nat
  | char c => c.utf8Size
  | byte _ => 1

/-- A byte without a character has the number of a surrogate, which no character has. -/
def escaped (b : UInt8) : List Char := '\\' :: 'u' :: Text.codeDigits 4 (0xDC00 + b.toNat)

def shown : Symbol → List Char
  | char c => [c]
  | byte b => escaped b

def quoted (quote : Char) : Symbol → List Char
  | char c => Text.escapeChar quote c
  | byte b => escaped b

end Symbol

/-- Text as the operating system has it, in names of files and words of a command line. Not all of
its bytes have to spell characters. -/
abbrev RawText := List Symbol

namespace RawText

def ofText (text : String) : RawText := text.toList.map .char

instance : Coe String RawText := ⟨ofText⟩

def characters? : RawText → Option (List Char)
  | [] => some []
  | .char c :: rest => (characters? rest).map (c :: ·)
  | .byte _ :: _ => none

/-- The text that is spelled, if all bytes belong to characters. -/
def text? (raw : RawText) : Option String := raw.characters?.map String.ofList

/-- The number of bytes. -/
def size : RawText → Nat
  | [] => 0
  | s :: rest => s.size + size rest

/-- What the error stream shows. -/
def shown (raw : RawText) : String := .ofList (raw.flatMap Symbol.shown)

/-- The same in quotes, for messages of the operating system. -/
def quoted (raw : RawText) : String :=
  let quote := Text.quoteFor (raw.filterMap Symbol.char?)
  .ofList (quote :: raw.flatMap (Symbol.quoted quote) ++ [quote])

/-- The words for a text that has no encoding. They point at the bytes without a character that come
first in it. -/
def encodingFault (raw : RawText) : String :=
  let isByte (s : Symbol) : Bool := s.char?.isNone
  let start := raw.findIdx isByte
  let bytes := (raw.drop start).takeWhile isByte
  let place :=
    if bytes.length = 1 then "character '" ++ shown bytes ++ "' in position " ++ Text.decimal start
    else "characters in position " ++ Text.decimal start ++ "-" ++
      Text.decimal (start + bytes.length - 1 : Nat)
  "'utf-8' codec can't encode " ++ place ++ ": surrogates not allowed"

/-- The bytes of a text in a file. -/
def encode (raw : RawText) : Except String ByteArray :=
  match raw.text? with
  | some text => .ok text.toUTF8
  | none => .error raw.encodingFault

theorem size_le_of_sublist {a b : RawText} (h : List.Sublist a b) : a.size ≤ b.size := by
  induction h with
  | slnil => exact Nat.le_refl 0
  | cons s _ ih => exact Nat.le_trans ih (Nat.le_add_left _ s.size)
  | cons_cons s _ ih => exact Nat.add_le_add_left ih s.size

theorem characters?_map (cs : List Char) : characters? (cs.map .char) = some cs := by
  induction cs with
  | nil => rfl
  | cons c cs ih => simp [characters?, ih]

@[simp]
theorem shown_ofText (text : String) : (ofText text).shown = text := by
  simp [shown, ofText, List.flatMap_map, Symbol.shown]

theorem append_ofText (a b : String) : ofText (a ++ b) = ofText a ++ ofText b := by
  simp [ofText]

theorem ofText_inj {a b : String} : ofText a = ofText b ↔ a = b := by
  constructor
  · intro h
    rw [← shown_ofText a, h, shown_ofText]
  · rintro rfl
    rfl

@[simp]
theorem text?_ofText (text : String) : (ofText text).text? = some text := by
  simp [text?, ofText, characters?_map]

theorem characters?_of_byte {raw : RawText} {b : UInt8} (h : .byte b ∈ raw) :
    raw.characters? = none := by
  induction raw with
  | nil => cases h
  | cons s rest ih =>
    cases s with
    | byte => rfl
    | char c =>
      have hrest : .byte b ∈ rest := by simpa using h
      simp [characters?, ih hrest]

theorem encode_ofText (text : String) : (ofText text).encode = .ok text.toUTF8 := by
  simp [encode]

theorem encode_of_byte {raw : RawText} {b : UInt8} (h : .byte b ∈ raw) :
    raw.encode = .error raw.encodingFault := by
  simp [encode, text?, characters?_of_byte h]

example : encodingFault [.char 'a', .byte 0xFF, .byte 0x80] =
    "'utf-8' codec can't encode characters in position 1-2: surrogates not allowed" := by
  decide +kernel

end RawText

end Cpu6502
