import Cpu6502.Cli.Arguments
import Cpu6502.Cli.Console
import Cpu6502.Files
import Cpu6502.Logged

namespace Cpu6502.Cli

inductive ExitStatus where
  | success
  /-- The opcode table is refused. -/
  | buildError
  /-- An argument is wrong, or a file is missing. -/
  | invalidArguments
  | internalError
  deriving DecidableEq, Repr

def ExitStatus.code : ExitStatus → Nat
  | success => 0
  | buildError => 1
  | invalidArguments => 2
  | internalError => 3

/-- What stops a run. -/
inductive Failure where
  /-- A message that shows its own place in a table. -/
  | table (message : String)
  /-- An error of this library that is not about a table. -/
  | library (message : String)
  /-- A bad argument, a missing file, or one that may not be used. -/
  | argument (message : String)
  | unexpected (message : String)
  deriving DecidableEq, Repr

namespace Failure

def ofFault (fault : Fault) : Failure :=
  match fault with
  | .table error => table error.message
  | .access _ .missing => argument fault.message
  | _ => unexpected fault.message

def status : Failure → ExitStatus
  | table _ | library _ => .buildError
  | argument _ => .invalidArguments
  | unexpected _ => .internalError

/-- The words for a failure. An activity that has a name is named with an error of the library. -/
def words (activity : String) : Failure → String
  | table message => message
  | library message =>
    (if activity.isEmpty then "Error: " else activity ++ " error: ") ++ message
  | argument message => "Error: " ++ message
  | unexpected message => "Internal error: " ++ message

end Failure

def Failure.report (console : Console) (activity : String) (failure : Failure) : String :=
  console.err (failure.words activity ++ "\n")

inductive Outcome where
  /-- The words are no proper use of the tool. -/
  | rejected (misuse : Misuse)
  | finished (status : ExitStatus) (stdout : RawText) (stderr : String) (files : Files)

/-- The number that a run exits with. A null character in a path breaks the run off, which is no
orderly rejection. -/
def Outcome.exitCode : Outcome → Nat
  | rejected .nullCharacter => 1
  | rejected _ => ExitStatus.invalidArguments.code
  | finished status .. => status.code

/-- The log as it is written, control sequences and all: every entry with its level, or else the
warnings alone. -/
def logText (verbose : Bool) (log : List LogEntry) : String :=
  if verbose then .join (log.map fun e => e.level.name ++ ": " ++ e.text ++ "\n")
  else .join ((log.filter (fun e => e.level == .warning)).map fun e => e.text ++ "\n")

/-- A run that fails leaves nothing but its log and its report on the streams. The call stack that a
verbose run shows after an unexpected failure is left out. -/
def failed (console : Console) (files : Files) (verbose : Bool) (log : List LogEntry)
    (activity : String) (failure : Failure) : Outcome :=
  .finished failure.status [] (logText verbose log ++ failure.report console activity) files

/-- Ends a run with a text, which goes to a file if there is a path for it, and else to the standard
output. The log so far is followed by an entry about the file, and by the entries in `closing`. -/
def deliver (console : Console) (files : Files) (verbose : Bool) (log : List LogEntry)
    (activity : String) (output : Option RawText) (text : RawText) (closing : List LogEntry) :
    Outcome :=
  match output with
  | none =>
    match console.out text with
    | .error message => failed console files verbose log activity (.unexpected message)
    | .ok shown => .finished .success shown (logText verbose (log ++ closing)) files
  | some path =>
    -- The file is opened before the text is encoded, and stays empty if that fails.
    match files.write path (text.encode.toOption.getD .empty) with
    | .error cause => failed console files verbose log activity (.ofFault (.access path cause))
    | .ok after =>
      match text.encode with
      | .error message => failed console after verbose log activity (.unexpected message)
      | .ok _ =>
        let written : LogEntry :=
          { level := .info, text := "Output written to: " ++ path.shown }
        .finished .success [] (logText verbose (log ++ written :: closing)) after

end Cpu6502.Cli
