import Cpu6502.Cli.Declare
import Cpu6502.Cli.Listing

namespace Cpu6502.Cli

/-- The values and operands among the words: whatever may be a path. -/
def pathsIn (tool : Tool ι ρ) (words : List RawText) : List RawText :=
  match Arguments.ofWords tool.grammar words with
  | .ok a => (a.operands ++ a.options.map Prod.snd).eraseDups
  | .error _ => []

/-- A path and all that it goes through. -/
def stations (path : RawText) : List RawText :=
  let parts := Path.parts path
  (List.range (parts.length + 1)).map fun n =>
    Path.normalise (Path.root path ++ Path.join (parts.take n))

/-- The parts of the absolute path. -/
def absolute (workingDirectory : List RawText) (path : RawText) : List RawText :=
  let start := if Path.root path == [] then workingDirectory else []
  (Path.parts path).foldl
    (fun place part => if part == Path.up then place.dropLast else place ++ [part]) start

def look (files : Files) (path : RawText) : IO Files := do
  let place := absolute files.workingDirectory path
  try
    let content ← IO.FS.readBinFile path.shown
    return { files with entries := Files.put place content files.entries }
  catch
    | .noFileOrDirectory .. | .invalidArgument .. => return files
    | .inappropriateType .. => return { files with directories := place :: files.directories }
    | e => throw e

/-- Everything that a run may look at is read before it. -/
def snapshot (paths : List RawText) : IO Files := do
  let workingDirectory := Path.parts (RawText.ofText (← IO.currentDir).toString)
  let files : Files := { workingDirectory := workingDirectory, entries := [] }
  (paths.flatMap stations).foldlM look files

def commit (before after : Files) : IO Unit :=
  (after.changedFrom before).forM fun (place, content) =>
    IO.FS.writeBinFile ("/" ++ (Path.join place).shown) content

/-- Lean hands words over as strings, so no byte of them is without a character. -/
def runTool [BEq ι] (tool : Tool ι ρ) (texts : List String) : IO UInt32 := do
  let words := texts.map RawText.ofText
  let before ← snapshot (pathsIn tool words)
  let outcome := tool.run .redirected before words
  match outcome with
  | .rejected .nullCharacter => pure ()
  | .rejected _ => IO.eprintln "Error: invalid arguments (try --help)"
  | .finished _ stdout stderr after =>
    commit before after
    IO.print stdout.shown
    IO.eprint stderr
  return outcome.exitCode.toUInt32

end Cpu6502.Cli

open Cpu6502.Cli in
def main (args : List String) : IO UInt32 :=
  match args with
  | "m6502gen" :: words => runTool Declare.tool words
  | "m6502dis" :: words => runTool Listing.tool words
  | _ => do
    IO.eprintln "Usage: m6502gen|m6502dis [OPTIONS]"
    return 2
