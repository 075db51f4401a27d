import Cpu6502.Logged
import Cpu6502.Path
import Cpu6502.Table.Line
import Cpu6502.Text.Utf8

namespace Cpu6502.Table

/-- Blank lines and lines that start with `#` declare nothing. -/
def declares (line : List Char) : Bool :=
  match Text.trim line with
  | [] => false
  | c :: _ => c != '#'

/-- Reads numbered lines up to the first that is refused. -/
def readLines (filename : String) (number : Nat) :
    List (List Char) → Except TableFault (List Record)
  | [] => .ok []
  | line :: rest =>
    if declares line then
      match Record.ofLine filename number line with
      | .error e => .error e
      | .ok record =>
        match readLines filename (number + 1) rest with
        | .error e => .error e
        | .ok records => .ok (record :: records)
    else readLines filename (number + 1) rest

def ofLines (filename : String) (lines : List (List Char)) : Logged (List Record) := do
  let records ← .ofExcept ((readLines filename 1 lines).mapError .table)
  .write .debug ("Parsed " ++ Text.decimal records.length ++ " records from " ++ filename)
  return records

def ofText (filename : String) (text : List Char) : Logged (List Record) :=
  ofLines filename (Text.lines text)

/-- Tables of which no name is known. -/
def anonymous : String := "<input>"

def byteOrderMark : Char := '\ufeff'

/-- A text without the one mark it may start with. -/
def dropMark : List Char → List Char
  | c :: rest => if c = byteOrderMark then rest else c :: rest
  | [] => []

/-- The line and the column of a byte, in bytes and by line feeds alone. -/
def bytePosition (bytes : ByteArray) (position : Nat) : Nat × Nat :=
  let before := bytes.toList.take position
  (before.count 0x0A + 1, (before.reverse.takeWhile (· != 0x0A)).length + 1)

/-- The error for bytes that are not well formed from a position on. -/
def illFormed (filename : String) (bytes : ByteArray) (position : Nat) : TableFault :=
  let (line, column) := bytePosition bytes position
  { cause := .illFormedByte (bytes.data[position]?.getD 0)
    location := some { filename := filename, line := line, column := column } }

/-- Reads the bytes of a file, which is named in locations by the last part of its path. -/
def ofBytes (filename : String) (bytes : ByteArray) : Logged (List Record) :=
  match Text.decodeUtf8 bytes with
  | .error position => .fail (.table (illFormed filename bytes position))
  | .ok text => ofText filename (dropMark text.toList)

/-- Loads the file at a path, given what it holds or why that cannot be read. -/
def load (path : RawText) (content : Except AccessFault ByteArray) : Logged (List Record) := do
  let path := Path.normalise path
  .write .debug ("Loading opcode table from " ++ path.shown)
  match content with
  | .error cause => .fail (.access path cause)
  | .ok bytes => ofBytes (Path.fileName path).shown bytes

end Cpu6502.Table
