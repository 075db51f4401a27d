import Cpu6502.Proofs.ParsedTable
import Cpu6502.Proofs.PathLookup

namespace Cpu6502

theorem Text.fromUTF8?_eq_some_iff {bytes : ByteArray} {text : String} :
    String.fromUTF8? bytes = some text ↔ bytes = text.toUTF8 := by
  unfold String.fromUTF8?
  constructor
  · intro h
    split at h
    · cases h
      rfl
    · cases h
  · rintro rfl
    rw [String.toUTF8_eq_toByteArray, dif_pos text.isValidUTF8]
    rfl

/-- Bytes are read as the text that they encode and as no other, and all other bytes as none. -/
theorem Text.decodeUtf8_ok_iff {bytes : ByteArray} {text : String} :
    decodeUtf8 bytes = .ok text ↔ bytes = text.toUTF8 := by
  rw [← fromUTF8?_eq_some_iff, decodeUtf8]
  cases String.fromUTF8? bytes <;> simp

/-- What can stand between slashes names the file at the path that it is, unless it stands for a
directory. -/
theorem Path.fileName_segment {name : RawText} (h : Segment name) (hdot : name ≠ dot) :
    fileName name = name := by
  have hparts : parts name = [name] := by
    have hsplit := splitOn_join (List.cons_ne_nil name []) (by simpa using h)
    rw [join, List.intercalate_singleton] at hsplit
    rw [parts_eq, hsplit]
    simp [leads, h.1, hdot]
  simp [fileName, hparts]

namespace Table

theorem fileName_normalise (path : RawText) :
    Path.fileName (Path.normalise path) = Path.fileName path := by
  rw [Path.fileName, Path.parts_normalise, Path.fileName]

theorem dropMark_eq (text : List Char) :
    dropMark text = if text.head? = some '\ufeff' then text.tail else text := by
  cases text with
  | nil => rfl
  | cons c rest => by_cases h : c = '\ufeff' <;> simp [dropMark, byteOrderMark, h]

/-- The encoding of a text, with a mark before it or not, is read as the text behind one mark. -/
theorem load_utf8Encode (path : RawText) (text : List Char) :
    (load path (.ok text.utf8Encode)).result =
      (ofText (Path.fileName path).shown (dropMark text)).result := by
  have hdecode : Text.decodeUtf8 text.utf8Encode = .ok (String.ofList text) := by
    rw [Text.decodeUtf8_ok_iff, String.toUTF8_eq_toByteArray, String.toByteArray_ofList]
  change (ofBytes (Path.fileName (Path.normalise path)).shown text.utf8Encode).result = _
  simp only [ofBytes, hdecode, fileName_normalise, String.toList_ofList]

/-- Loading is the inverse of encoding, but for one mark at the start of the file. -/
theorem load_text (path text : String) :
    (load path (.ok text.toUTF8)).result =
      (ofText (Path.fileName path).shown
        (if text.toList.head? = some '\ufeff' then text.toList.tail else text.toList)).result ∧
    (load path (.ok (⟨#[0xEF, 0xBB, 0xBF]⟩ ++ text.toUTF8))).result =
      (ofText (Path.fileName path).shown text.toList).result ∧
    (∀ bytes decoded, Text.decodeUtf8 bytes = .ok decoded ↔ bytes = decoded.toUTF8) ∧
    ∀ name : String, Path.Segment name → name ≠ "." → (Path.fileName name).shown = name := by
  have htext : text.toUTF8 = text.toList.utf8Encode := by
    rw [String.toUTF8_eq_toByteArray, String.utf8Encode_toList]
  have hmark : (⟨#[0xEF, 0xBB, 0xBF]⟩ : ByteArray) ++ text.toUTF8 =
      (byteOrderMark :: text.toList).utf8Encode := by
    rw [List.utf8Encode_cons, htext]
    rfl
  refine ⟨?_, ?_, fun _ _ => Text.decodeUtf8_ok_iff, ?_⟩
  · rw [htext, load_utf8Encode, dropMark_eq]
  · rw [hmark, load_utf8Encode, dropMark, if_pos rfl]
  · intro name hsegment hdot
    have hraw : (name : RawText) ≠ Path.dot := by
      rw [show Path.dot = RawText.ofText "." by decide]
      exact mt RawText.ofText_inj.mp hdot
    rw [Path.fileName_segment hsegment hraw, RawText.shown_ofText]

/-- The second of two marks belongs to the first line, where it makes a label unknown. -/
theorem load_text_marked :
    let text := "\ufeffImplied|NOP|EA|1"
    let error : TableFault :=
      { cause := .unknownMode "\ufeffImplied" ["Implied"]
        location := some { filename := "table.txt", line := 1, column := 1 }
        sourceLine := some "\ufeffImplied|NOP|EA|1" }
    (load "table.txt" (.ok (⟨#[0xEF, 0xBB, 0xBF]⟩ ++ text.toUTF8))).result = .error (.table error) ∧
    ∃ records, (load "table.txt" (.ok text.toUTF8)).result = .ok records := by
  intro text error
  obtain ⟨hone, htwo, _, hname⟩ := load_text "table.txt" text
  rw [hname "table.txt" ⟨by decide, by decide⟩ (by decide)] at hone htwo
  refine ⟨?_, ?_⟩
  · rw [htwo]
    decide +kernel
  · rw [hone]
    exact except_isOk_iff.mp (by decide +kernel)

end Table

end Cpu6502
