import Cpu6502.Cli.Outcome
import Cpu6502.TableSource

namespace Cpu6502.Cli

/-- A tool has options `ι`, of which two show texts about the tool itself, and does what a request
`ρ` asks for. -/
structure Tool (ι ρ : Type) where
  name : String
  grammar : Grammar ι
  versionOption : ι
  helpOption : ι
  helpText : String
  /-- Checks the value of an option that is given. -/
  check : Files → Arguments ι → ι → Except Misuse Unit
  /-- Makes a request of checked options, and of operands that are checked here. -/
  request : Files → Arguments ι → Except Misuse ρ
  perform : Console → Files → ρ → Outcome

inductive Command (ρ : Type) where
  | perform (request : ρ)
  | showVersion
  | showHelp

namespace Tool

variable [BEq ι]

/-- The words of a command line as a command. The texts about the tool come before all checks, and
those in the order of the options. -/
def command (tool : Tool ι ρ) (files : Files) (words : List RawText) :
    Except Misuse (Command ρ) := do
  let a ← Arguments.ofWords tool.grammar words
  let given := a.givenOptions
  match given.find? (fun o => o == tool.versionOption || o == tool.helpOption) with
  | some o => return if o == tool.versionOption then .showVersion else .showHelp
  | none =>
    given.forM (tool.check files a)
    return .perform (← tool.request files a)

def versionText (tool : Tool ι ρ) : String := tool.name ++ ", version 1.0.0\n"

def run (tool : Tool ι ρ) (console : Console) (files : Files) (words : List RawText) : Outcome :=
  match tool.command files words with
  | .error misuse => .rejected misuse
  | .ok .showVersion => .finished .success (RawText.ofText tool.versionText) "" files
  | .ok .showHelp => .finished .success (RawText.ofText tool.helpText) "" files
  | .ok (.perform request) => tool.perform console files request

end Tool

/-- A value that names a file to read. Such values are checked as the library for command lines is
documented to check them. -/
def checkInput (files : Files) (path : RawText) : Except Misuse Unit :=
  match files.lookup path with
  | .file .. => .ok ()
  | .nothing .nullCharacter => .error .nullCharacter
  | _ => .error .badValue

/-- A value that names a file to write, checked likewise: it need not be there, but must not be a
directory. -/
def checkOutput (files : Files) (path : RawText) : Except Misuse Unit :=
  match files.lookup path with
  | .directory _ => .error .badValue
  | .nothing .nullCharacter => .error .nullCharacter
  | _ => .ok ()

/-- The table at a path, or else the packaged one. -/
def tableAt (files : Files) : Option RawText → TableSource
  | none => .packaged
  | some path => .file path (files.read path)

end Cpu6502.Cli
