import Cpu6502.Declarations
import Cpu6502.Table.Packaged

namespace Cpu6502

/-- A file has a path, and content if it can be read. -/
inductive TableSource where
  | packaged
  | file (path : RawText) (content : Except AccessFault ByteArray)

namespace TableSource

def load : TableSource → Logged (List Record)
  | packaged => Table.Packaged.load
  | file path content => Table.load path content

def denseTable (source : TableSource) (policy : RepeatPolicy) : Logged DenseTable := do
  let records ← source.load
  DenseTable.build policy records

def declarations (source : TableSource) (policy : RepeatPolicy) (ids : Identifiers) :
    Logged String := do
  let table ← source.denseTable policy
  let text := Declarations.all table ids
  let lineCount := (Text.lines text.toList).length
  .write .debug ("Generated " ++ Text.decimal lineCount ++ " lines of source")
  return text

end TableSource

end Cpu6502
