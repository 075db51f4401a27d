import Cpu6502.RawText
import Cpu6502.Text.ControlSequence

namespace Cpu6502.Cli

/-- The two output streams of a run, which have room for every character. What else becomes of a text
is up to the library that writes to them. -/
structure Console where
  /-- What comes out on the standard output, or the words for why nothing does. -/
  out : RawText → Except String RawText
  err : String → String
  /-- A text of characters comes out as it is, as long as no control sequence can start in it. -/
  out_text {text : String} (h : Text.escape ∉ text.toList) : out text = .ok text

/-- Streams in UTF-8 that are no terminal. The library leaves control sequences out on them. -/
def Console.redirected : Console where
  out raw :=
    match raw.text? with
    | some text => .ok (.ofText (.ofList (Text.plain text.toList)))
    | none => .error raw.encodingFault
  err text := .ofList (Text.plain text.toList)
  out_text h := by simp [Text.plain_eq_self h]

end Cpu6502.Cli
