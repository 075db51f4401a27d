import Cpu6502.Proofs.DeclarationLines
import Cpu6502.TableFault

namespace Cpu6502

/-- A text without line feeds. -/
def Unbroken (text : String) : Prop := '\n' ∉ text.toList

namespace Unbroken

variable {a b : String}

@[simp]
theorem append_iff : Unbroken (a ++ b) ↔ Unbroken a ∧ Unbroken b := by
  rw [Unbroken, String.toList_append, List.mem_append, not_or]
  rfl

/-- A literal is of this form, too. -/
theorem ofList {text : List Char} (h : '\n' ∉ text) : Unbroken (.ofList text) := by
  rwa [Unbroken, String.toList_ofList]

theorem intercalate {separator : String} {texts : List String} (hseparator : Unbroken separator)
    (h : ∀ text ∈ texts, Unbroken text) : Unbroken (separator.intercalate texts) := by
  intro hm
  rw [String.toList_intercalate] at hm
  rcases Text.mem_intercalate hm with hm | ⟨group, hgroup, hm⟩
  · exact hseparator hm
  · obtain ⟨text, htext, rfl⟩ := List.mem_map.mp hgroup
    exact h text htext hm

theorem decimal (n : Int) : Unbroken (Text.decimal n) := by
  have hdigits := Declarations.word_toDigits (show 1 < 10 by omega) (by omega) n.natAbs
  have hsign : '\n' ∉ Text.signText n := by
    unfold Text.signText
    split <;> decide
  rw [Text.decimal]
  refine ofList fun hm => ?_
  rcases List.mem_append.mp hm with hm | hm
  · exact hsign hm
  · exact hdigits.not_mem (by rfl) hm

end Unbroken

namespace TableFault

end TableFault

end Cpu6502
