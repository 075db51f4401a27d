import Cpu6502.RawText

namespace Cpu6502.Path

/-- What stands between the parts of a path. -/
def slash : Symbol := .char '/'

/-- The current directory. -/
def dot : RawText := [.char '.']

/-- The parent directory. -/
def up : RawText := [.char '.', .char '.']

/-- The parts of a path that lead somewhere: neither empty nor a single dot. -/
def parts (path : RawText) : List RawText :=
  (path.splitOn slash).filter (fun p => p != [] && p != dot)

/-- The slashes with which an absolute path starts. Exactly two are kept, more count as one. -/
def root (path : RawText) : RawText :=
  match (path.takeWhile (· == slash)).length with
  | 0 => []
  | 2 => [slash, slash]
  | _ => [slash]

def join (parts : List RawText) : RawText := [slash].intercalate parts

/-- The same path without the parts that lead nowhere. Steps to a parent directory stay. -/
def normalise (path : RawText) : RawText :=
  match root path ++ join (parts path) with
  | [] => dot
  | path => path

/-- The last part, which is empty for a root and for the current directory. -/
def fileName (path : RawText) : RawText := (parts path).getLast?.getD []

end Cpu6502.Path
