import Cpu6502.RawText
import Cpu6502.TableFault

namespace Cpu6502

/-- Why a path cannot be read or written. Permissions are left out: every file can be read and
written, and every directory written to. -/
inductive AccessFault where
  | missing
  /-- The path goes on after a file. -/
  | notADirectory
  | isADirectory
  | nameTooLong
  | nullCharacter
  deriving DecidableEq, Repr

/-- The words of the operating system, which take the path along. A path with a null character never
gets so far. -/
def AccessFault.message (path : RawText) : AccessFault → String
  | missing => "[Errno 2] No such file or directory: " ++ path.quoted
  | notADirectory => "[Errno 20] Not a directory: " ++ path.quoted
  | isADirectory => "[Errno 21] Is a directory: " ++ path.quoted
  | nameTooLong => "[Errno 36] File name too long: " ++ path.quoted
  | nullCharacter => "embedded null byte"

inductive Fault where
  | table (error : TableFault)
  | access (path : RawText) (cause : AccessFault)
  /-- A dense table was to be made of some other number of rows than 256. -/
  | rowCount (rows : Nat)
  | opcodeOutOfRange (opcode : Int)
  | unregistered (mnemonic : String)
  | unknownPolicy (text : String)
  | notANumber (text : String)
  | offsetBeyondData (offset : Int) (size : Nat)
  /-- A byte or a row was asked for at a position that does not exist. -/
  | noSuchPosition (position : Int)
  /-- A sweep over rows of length zero or less that comes back to where it has been. -/
  | endlessSweep
  deriving DecidableEq, Repr

namespace Fault

def message : Fault → String
  | table error => error.message
  | access path cause => cause.message path
  | rowCount rows => "dense table needs 256 rows, got " ++ Text.decimal rows
  | opcodeOutOfRange opcode => "opcode byte out of range: " ++ Text.decimal opcode
  | unregistered mnemonic => Text.quoted mnemonic
  | unknownPolicy text => "unknown duplicate policy: " ++ Text.quoted text
  | notANumber text => "not a number: " ++ Text.quoted text
  | offsetBeyondData offset size =>
    "Offset " ++ Text.decimal offset ++ " beyond data length " ++ Text.decimal size
  | noSuchPosition position => "no element at position " ++ Text.decimal position
  | endlessSweep => "the sweep does not end"

end Fault

end Cpu6502
