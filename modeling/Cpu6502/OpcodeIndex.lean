import Cpu6502.Logged
import Cpu6502.Record

namespace Cpu6502

/-- What becomes of a second record for an opcode. -/
inductive RepeatPolicy where
  /-- A second record for an opcode is an error. -/
  | refuse
  /-- The last record for an opcode stands, and the log says so. -/
  | lastWins
  deriving DecidableEq, Repr, Inhabited

namespace RepeatPolicy

def text : RepeatPolicy → String
  | refuse => "error"
  | lastWins => "last"

def ofText? (text : String) : Option RepeatPolicy :=
  [refuse, lastWins].find? (fun p => p.text == text)

end RepeatPolicy

namespace OpcodeIndex

def find? (index : List Record) (opcode : Int) : Option Record :=
  index.find? (fun r => r.opcode == opcode)

/-- Puts a record at the place of the one with its opcode, or else at the end. -/
def put (record : Record) : List Record → List Record
  | [] => [record]
  | head :: rest =>
    if head.opcode = record.opcode then record :: rest else head :: put record rest

def replacementText (new old : Record) : String :=
  "Opcode $" ++ Text.upperHex 2 new.opcode ++ ": " ++ new.mnemonic ++ " " ++ new.mode.label ++
    " replaces " ++ old.mnemonic ++ " " ++ old.mode.label

def duplicate (new old : Record) : TableFault :=
  { cause := .duplicateOpcode new.opcode old.location, location := new.location }

/-- Adds one record to an index. -/
def add (policy : RepeatPolicy) (index : List Record) (record : Record) :
    Logged (List Record) :=
  match find? index record.opcode with
  | none => pure (put record index)
  | some old =>
    match policy with
    | .refuse => .fail (.table (duplicate record old))
    | .lastWins => do
      .write .warning (replacementText record old)
      return put record index

def addAll (policy : RepeatPolicy) (index : List Record) : List Record → Logged (List Record)
  | [] => pure index
  | record :: rest => do
    let index ← add policy index record
    addAll policy index rest

def ofRecords (policy : RepeatPolicy) (records : List Record) : Logged (List Record) :=
  addAll policy [] records

end OpcodeIndex

end Cpu6502
