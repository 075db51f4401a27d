import Cpu6502.Text.ControlSequence
import Cpu6502.Proofs.DeclarationReadBack
import Cpu6502.Proofs.ListingReadBack

namespace Cpu6502

/-- A text without escape characters. -/
def Unescaped (text : String) : Prop := Text.escape ∉ text.toList

instance (text : String) : Decidable (Unescaped text) := inferInstanceAs (Decidable (¬ _))

namespace Unescaped

variable {a b : String}

@[simp]
theorem append_iff : Unescaped (a ++ b) ↔ Unescaped a ∧ Unescaped b := by
  rw [Unescaped, String.toList_append, List.mem_append, not_or]
  rfl

theorem intercalate {separator : String} {texts : List String} (hseparator : Unescaped separator)
    (h : ∀ text ∈ texts, Unescaped text) : Unescaped (separator.intercalate texts) := by
  intro hm
  rw [String.toList_intercalate] at hm
  rcases Text.mem_intercalate hm with hm | ⟨group, hgroup, hm⟩
  · exact hseparator hm
  · obtain ⟨text, htext, rfl⟩ := List.mem_map.mp hgroup
    exact h text htext hm

theorem of_word (h : Declarations.Word a.toList) : Unescaped a := h.not_mem (by rfl)

end Unescaped

namespace Declarations

variable {table : DenseTable} {ids : Identifiers}

@[simp]
theorem unescaped_block {header body : String} :
    Unescaped (block header body) ↔ Unescaped header ∧ Unescaped body := by
  have hopen : Unescaped " \x7b\n" := by decide
  have hclose : Unescaped "\n\x7d;\n" := by decide
  simp [block, hopen, hclose]

theorem unescaped_decimal (n : Nat) : Unescaped (Text.decimal n) := by
  apply Unescaped.of_word
  rw [Text.decimal_natCast]
  exact word_toDigits (by omega) (by omega) n

theorem unescaped_mnemonicArray (ht : table.Compiled) (hids : ids.Plain) :
    Unescaped (mnemonicArray table.mnemonics ids) := by
  have harray : Unescaped ids.mnemonicArray := .of_word hids.mnemonicArray
  have hnames : Unescaped
      (",".intercalate (table.mnemonics.names.map fun name => "\"" ++ name ++ "\"")) := by
    apply Unescaped.intercalate (by decide)
    rw [List.forall_mem_map]
    intro name hname
    have hquote : Unescaped "\"" := by decide
    simp [hquote, Unescaped.of_word (word_name ht hname)]
  rw [mnemonicArray, unescaped_block]
  simp only [Unescaped.append_iff, harray, hnames]
  decide

theorem unescaped_mnemonicEnum (ht : table.Compiled) (hids : ids.Plain) :
    Unescaped (mnemonicEnum table.mnemonics ids) := by
  have hname : Unescaped ids.mnemonicEnum := .of_word hids.mnemonicEnum
  have hlines : Unescaped (",\n".intercalate (table.mnemonics.items.map (enumeratorLine ids))) := by
    apply Unescaped.intercalate (by decide)
    rw [List.forall_mem_map]
    intro item hitem
    have henumerator := Unescaped.of_word (word_mnemonicEnumerator hids (word_item ht hitem))
    simp only [enumeratorLine, Unescaped.append_iff, henumerator, unescaped_decimal]
    decide
  rw [mnemonicEnum, unescaped_block]
  simp only [Unescaped.append_iff, hname, hlines]
  decide

theorem unescaped_modeEnum (hids : ids.Plain) : Unescaped (modeEnum ids) := by
  have hname : Unescaped ids.modeEnum := .of_word hids.modeEnum
  have hlines : Unescaped (",\n".intercalate (Mode.all.map ids.modeEnumerator)) := by
    apply Unescaped.intercalate (by decide)
    rw [List.forall_mem_map]
    exact fun mode _ => .of_word (word_modeEnumerator hids mode)
  rw [modeEnum, unescaped_block]
  simp only [Unescaped.append_iff, hname, hlines]
  decide

theorem unescaped_entry (ht : table.Parsed) (hids : ids.Plain) (byte : UInt8) :
    Unescaped (entry ids (table.row byte)) := by
  obtain ⟨hopcode, hlength⟩ := row_numbers ht byte
  have hdigits : Unescaped (Text.lowerHex byte.toNat) := by
    apply Unescaped.of_word
    rw [Text.lowerHex_natCast]
    exact word_toDigits (by omega) (by omega) _
  have htype : Unescaped ids.entryType := .of_word hids.entryType
  have hname := word_mnemonic (ht.row_sound byte).regular.mnemonic_text
  have henumerator := Unescaped.of_word (word_mnemonicEnumerator hids hname)
  have hmode := Unescaped.of_word (word_modeEnumerator hids (table.row byte).record.mode)
  rw [entry, hopcode, hlength]
  simp only [Unescaped.append_iff, htype, hdigits, henumerator, unescaped_decimal, hmode]
  decide

theorem unescaped_tableArray (ht : table.Parsed) (hids : ids.Plain) :
    Unescaped (tableArray table ids) := by
  have htype : Unescaped ids.entryType := .of_word hids.entryType
  have harray : Unescaped ids.tableArray := .of_word hids.tableArray
  have hlines : Unescaped (",\n".intercalate (table.rows.toList.map (entry ids))) := by
    apply Unescaped.intercalate (by decide)
    rw [List.forall_mem_map]
    intro row hrow
    obtain ⟨byte, rfl⟩ := DenseTable.mem_rows hrow
    exact unescaped_entry ht hids byte
  rw [tableArray, unescaped_block]
  simp only [Unescaped.append_iff, htype, harray, hlines]
  decide

theorem unescaped_all (ht : table.Compiled) (hids : ids.Plain) : Unescaped (all table ids) := by
  apply Unescaped.intercalate (by decide)
  simp only [List.mem_cons, List.not_mem_nil, or_false, forall_eq_or_imp, forall_eq]
  exact ⟨unescaped_mnemonicArray ht hids, unescaped_mnemonicEnum ht hids, unescaped_modeEnum hids,
    unescaped_tableArray ht.parsed hids⟩

end Declarations

namespace ListingLine

theorem Clear.no_escape {text : List Char} (h : Clear text) : Text.escape ∉ text :=
  fun hm => absurd (h _ hm).1 (by decide)

theorem Listable.unescaped {i : Instruction} (h : Listable i) : Unescaped i.listingLine := by
  unfold Unescaped
  by_cases hcomment : i.comment = ""
  · rw [h.toList_of_no_comment hcomment]
    exact (clear_append.mpr ⟨h.clear_front, h.clear_assembly⟩).no_escape
  · have hseparator : Text.escape ∉ separator := by decide
    rw [h.toList_of_comment hcomment, List.mem_append, List.mem_append, not_or, not_or]
    exact ⟨⟨h.clear_padded.no_escape, hseparator⟩, h.comment_clear.no_escape⟩

end ListingLine

end Cpu6502
