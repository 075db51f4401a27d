import Cpu6502.Fault
import Cpu6502.Path

namespace Cpu6502

/-- Files by the parts of their absolute paths. There are no links among them. -/
structure Files where
  workingDirectory : List RawText
  entries : List (List RawText × ByteArray) := []
  /-- Directories that are there though none of the files is in them. -/
  directories : List (List RawText) := []

namespace Files

/-- What a path leads to. -/
inductive Node where
  | file (path : List RawText) (content : ByteArray)
  | directory (path : List RawText)
  | nothing (cause : AccessFault)

def contentOf? (files : Files) (path : List RawText) : Option ByteArray :=
  (files.entries.find? (fun e => e.1 == path)).map Prod.snd

def isDirectory (files : Files) (path : List RawText) : Bool :=
  path.isPrefixOf files.workingDirectory || files.directories.any path.isPrefixOf ||
    files.entries.any (fun e => path.isPrefixOf e.1 && path != e.1)

/-- The most bytes that one part of a path may have. -/
def partLimit : Nat := 255

/-- The most bytes that a path may have. -/
def pathLimit : Nat := 4095

def node (files : Files) (directory : List RawText) (part : RawText) : Node :=
  let path := directory ++ [part]
  if partLimit < part.size then .nothing .nameTooLong
  else
    match files.contentOf? path with
    | some content => .file path content
    | none => if files.isDirectory path then .directory path else .nothing .missing

/-- Follows one part of a path. An empty part or a dot stays in a directory, and the root is its own
parent. -/
def step (files : Files) (place : Node) (part : RawText) : Node :=
  match place with
  | .directory path =>
    if part == [] || part == Path.dot then .directory path
    else if part == Path.up then .directory path.dropLast
    else files.node path part
  | .file .. => .nothing .notADirectory
  | .nothing cause => .nothing cause

/-- Follows a path part by part. An empty path leads nowhere. -/
def lookup (files : Files) (path : RawText) : Node :=
  if path.contains (.char '\x00') then .nothing .nullCharacter
  else if pathLimit < path.size then .nothing .nameTooLong
  else
    match path.splitOn Path.slash with
    | [[]] => .nothing .missing
    | [] :: rest => rest.foldl files.step (.directory [])
    | parts => parts.foldl files.step (.directory files.workingDirectory)

def read (files : Files) (path : RawText) : Except AccessFault ByteArray :=
  match files.lookup path with
  | .file _ content => .ok content
  | .directory _ => .error .isADirectory
  | .nothing cause => .error cause

/-- The directory that a file is to be in, as a path. -/
def parentPath (path : RawText) : RawText :=
  Path.root path ++ Path.join (Path.dot :: (Path.parts path).dropLast)

/-- The file that a path leads to for writing: one that is there, or a new one in a directory that
is there. -/
def target (files : Files) (path : RawText) : Except AccessFault (List RawText) :=
  match files.lookup path with
  | .file path _ => .ok path
  | .directory _ => .error .isADirectory
  | .nothing .missing =>
    match files.lookup (parentPath path) with
    | .directory directory => .ok (directory ++ [Path.fileName path])
    | .file .. => .error .notADirectory
    | .nothing cause => .error cause
  | .nothing cause => .error cause

def put (path : List RawText) (content : ByteArray) :
    List (List RawText × ByteArray) → List (List RawText × ByteArray)
  | [] => [(path, content)]
  | e :: rest => if e.1 == path then (path, content) :: rest else e :: put path content rest

def write (files : Files) (path : RawText) (content : ByteArray) : Except AccessFault Files :=
  (files.target path).map fun place => { files with entries := put place content files.entries }

/-- The files that are new or have other content than before. -/
def changedFrom (files before : Files) : List (List RawText × ByteArray) :=
  files.entries.filter (fun e => before.contentOf? e.1 != some e.2)

end Files

end Cpu6502
