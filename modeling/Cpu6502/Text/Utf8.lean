namespace Cpu6502.Text

/-- The first position from `start` on at which no well-formed character begins. It is the number
of bytes if all of them are well formed. -/
def firstIllFormed (bytes : ByteArray) (start : Nat) : Nat :=
  match h : bytes.utf8DecodeChar? start with
  | none => start
  | some c =>
    have := ByteArray.lt_size_of_isSome_utf8DecodeChar? (Option.isSome_of_eq_some h)
    have := c.utf8Size_pos
    firstIllFormed bytes (start + c.utf8Size)
termination_by bytes.size - start

/-- The text that the bytes spell, or the position of the first byte that spells none. Overlong
forms, surrogates and code points above U+10FFFF are ill-formed. -/
def decodeUtf8 (bytes : ByteArray) : Except Nat String :=
  match String.fromUTF8? bytes with
  | some text => .ok text
  | none => .error (firstIllFormed bytes 0)

end Cpu6502.Text
