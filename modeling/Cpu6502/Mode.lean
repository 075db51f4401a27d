namespace Cpu6502

/-- Declared in the order in which the modes are numbered in generated sources. -/
inductive Mode where
  | absolute
  | absoluteX
  | absoluteY
  | accumulator
  | immediate
  | implied
  | indirect
  | relative
  | zeroPage
  | zeroPageX
  | zeroPageY
  | indirectPlusY
  | indirectX
  | indirectY
  deriving DecidableEq, Repr, Inhabited

namespace Mode

def all : List Mode :=
  [absolute, absoluteX, absoluteY, accumulator, immediate, implied, indirect, relative, zeroPage,
   zeroPageX, zeroPageY, indirectPlusY, indirectX, indirectY]

/-- The spelling of a mode in opcode tables and messages. -/
def label : Mode → String
  | absolute => "Absolute"
  | absoluteX => "Absolute,X"
  | absoluteY => "Absolute,Y"
  | accumulator => "Accumulator"
  | immediate => "Immediate"
  | implied => "Implied"
  | indirect => "Indirect"
  | relative => "Relative"
  | zeroPage => "Zero Page"
  | zeroPageX => "Zero Page,X"
  | zeroPageY => "Zero Page,Y"
  | indirectPlusY => "(Indirect),Y"
  | indirectX => "(Indirect,X)"
  | indirectY => "(Indirect,Y)"

/-- The spelling of a mode inside generated identifiers. -/
def camelName : Mode → String
  | absolute => "Absolute"
  | absoluteX => "AbsoluteX"
  | absoluteY => "AbsoluteY"
  | accumulator => "Accumulator"
  | immediate => "Immediate"
  | implied => "Implied"
  | indirect => "Indirect"
  | relative => "Relative"
  | zeroPage => "ZeroPage"
  | zeroPageX => "ZeroPageX"
  | zeroPageY => "ZeroPageY"
  | indirectPlusY => "IndirectPlusY"
  | indirectX => "IndirectX"
  | indirectY => "IndirectY"

/-- The spelling of a mode where a record is described. -/
def constantName : Mode → String
  | absolute => "ABSOLUTE"
  | absoluteX => "ABSOLUTE_X"
  | absoluteY => "ABSOLUTE_Y"
  | accumulator => "ACCUMULATOR"
  | immediate => "IMMEDIATE"
  | implied => "IMPLIED"
  | indirect => "INDIRECT"
  | relative => "RELATIVE"
  | zeroPage => "ZERO_PAGE"
  | zeroPageX => "ZERO_PAGE_X"
  | zeroPageY => "ZERO_PAGE_Y"
  | indirectPlusY => "INDIRECT_PLUS_Y"
  | indirectX => "INDIRECT_X"
  | indirectY => "INDIRECT_Y"

/-- The number of bytes after the opcode. -/
def operandSize : Mode → Nat
  | accumulator | implied => 0
  | immediate | relative | zeroPage | zeroPageX | zeroPageY | indirectPlusY | indirectX
  | indirectY => 1
  | absolute | absoluteX | absoluteY | indirect => 2

def length (m : Mode) : Nat := 1 + m.operandSize

theorem length_le (m : Mode) : m.length ≤ 3 := by cases m <;> decide

/-- The place of a mode in the order of declaration, from one. -/
def ordinal (m : Mode) : Nat := m.ctorIdx + 1

def labels : List String := all.map label

/-- A label names a mode only if it is spelled exactly, case and spaces included. -/
def ofLabel? (text : String) : Option Mode := all.find? (fun m => m.label == text)

theorem mem_all (m : Mode) : m ∈ all := by cases m <;> decide

theorem ofLabel?_label (m : Mode) : ofLabel? m.label = some m := by cases m <;> decide

end Mode

end Cpu6502
