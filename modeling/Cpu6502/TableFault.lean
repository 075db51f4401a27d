import Cpu6502.Location

namespace Cpu6502

/-- Why a table is refused. -/
inductive TableFault.Cause where
  /-- A report in words of its own, of no particular kind. -/
  | general (description : String) (hint : Option String)
  /-- A report in words of its own about the form of a line. -/
  | malformed (description : String) (hint : Option String)
  | fieldCount (found : Nat)
  | invalidMnemonic (text : String)
  | invalidLength (text : String)
  | illFormedByte (byte : UInt8)
  | invalidOpcode (text : String)
  /-- The labels are those that the unknown one may have been meant for. -/
  | unknownMode (label : String) (similar : List String)
  | inconsistentLength (mnemonic mode : String) (length expected : Int)
  | duplicateOpcode (opcode : Int) (first : Option Location)
  deriving DecidableEq, Repr

structure TableFault where
  cause : TableFault.Cause
  location : Option Location := none
  /-- The line as it stands in the table. -/
  sourceLine : Option String := none
  deriving DecidableEq, Repr

namespace TableFault

/-- The kinds into which callers sort table errors. -/
inductive Kind where
  | general
  | malformed
  | invalidOpcode
  | unknownMode
  | inconsistentLength
  | duplicateOpcode
  deriving DecidableEq, Repr

namespace Cause

def kind : Cause → Kind
  | general .. => .general
  | malformed .. | fieldCount .. | invalidMnemonic .. | invalidLength .. | illFormedByte .. =>
    .malformed
  | invalidOpcode .. => .invalidOpcode
  | unknownMode .. => .unknownMode
  | inconsistentLength .. => .inconsistentLength
  | duplicateOpcode .. => .duplicateOpcode

def description : Cause → String
  | general text _ | malformed text _ => text
  | fieldCount found => "expected 4 fields separated by '|', found " ++ Text.decimal found
  | invalidMnemonic text => "invalid mnemonic '" ++ text ++ "'"
  | invalidLength text => "invalid instruction length '" ++ text ++ "'"
  | illFormedByte byte => "invalid UTF-8 byte 0x" ++ Text.upperHex 2 byte.toNat
  | invalidOpcode text => "invalid opcode byte '" ++ text ++ "'"
  | unknownMode label _ => "unknown addressing mode '" ++ label ++ "'"
  | inconsistentLength mnemonic mode length expected =>
    "'" ++ mnemonic ++ "' with " ++ mode ++ " addressing is " ++ Text.decimal expected ++
      " bytes, not " ++ Text.decimal length
  | duplicateOpcode opcode _ => "duplicate opcode byte $" ++ Text.upperHex 2 opcode

/-- At most three labels are suggested. -/
def suggestion (similar : List String) : String :=
  "did you mean " ++ ", ".intercalate ((similar.take 3).map (fun s => "'" ++ s ++ "'")) ++ "?"

def hint : Cause → Option String
  | general _ hint | malformed _ hint => hint
  | fieldCount _ => some "format is: addressing mode | mnemonic | opcode | length"
  | invalidMnemonic _ => some "mnemonics are 1 to 3 alphanumeric characters"
  | invalidLength _ => some "length must be 1, 2 or 3"
  | illFormedByte _ => some "opcode tables must be UTF-8 text"
  | invalidOpcode _ => some "opcode must be a hexadecimal value between 00 and FF"
  | unknownMode _ [] => none
  | unknownMode _ similar => some (suggestion similar)
  | inconsistentLength .. => none
  | duplicateOpcode opcode first =>
    first.map (fun l => "$" ++ Text.upperHex 2 opcode ++ " was first declared at " ++ l.text)

end Cause

def kind (e : TableFault) : Kind := e.cause.kind

def description (e : TableFault) : String := e.cause.description

def hint (e : TableFault) : Option String := e.cause.hint

/-- The source line, indented by four, and a caret under the column. -/
def excerpt (e : TableFault) : List String :=
  match e.sourceLine, e.location with
  | some line, some place =>
    ("    " ++ line) ::
      (if 0 < place.column then [.ofList (List.replicate (3 + place.column.toNat) ' ' ++ ['^'])]
       else [])
  | _, _ => []

def headline (e : TableFault) : String :=
  match e.location with
  | some place => place.text ++ ": error: " ++ e.description
  | none => "error: " ++ e.description

/-- An empty hint is no hint. -/
def hintLines (e : TableFault) : List String :=
  match e.hint with
  | some hint => if hint.isEmpty then [] else ["hint: " ++ hint]
  | none => []

def message (e : TableFault) : String :=
  "\n".intercalate (e.headline :: e.excerpt ++ e.hintLines)

end TableFault

end Cpu6502
