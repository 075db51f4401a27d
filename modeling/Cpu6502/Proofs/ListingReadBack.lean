import Cpu6502.Proofs.DeclarationLines
import Cpu6502.Proofs.ListingLine
import Cpu6502.Proofs.OperandText
import Cpu6502.Proofs.SweepRun

namespace Cpu6502

namespace Decode

open ListingLine

theorem solid_hexDigit {c : Char} (h : isHexDigit c = true) : Solid [c] := by
  obtain ⟨d, hd⟩ := Option.isSome_iff_exists.mp h
  have hall : Solid ("0123456789abcdef".toList ++ "0123456789ABCDEF".toList) := by decide
  have hmem : c ∈ "0123456789abcdef".toList ++ "0123456789ABCDEF".toList := by
    rcases Line.digitValue?_iff.mp hd with h | h
    · exact List.mem_append_left _ (List.mem_of_getElem? h)
    · exact List.mem_append_right _ (List.mem_of_getElem? h)
  simpa [Solid] using hall c hmem

/-- Digits apart, an operand consists of the characters of its template. -/
theorem solid_operand {mode : Mode} {bytes : List UInt8} {next : Int} {operand : Operand}
    (h : operand? mode bytes next = some operand) :
    Solid operand.text.toList ∧ operand.text.toList.length ≤ 7 := by
  have htemplate : Solid (template mode).toList ∧ (template mode).toList.length ≤ 7 := by
    cases mode <;> decide
  rw [← outline_operand h] at htemplate
  constructor
  · intro c hc
    by_cases hdigit : isHexDigit c = true
    · exact solid_hexDigit hdigit c (List.mem_singleton_self c)
    · exact htemplate.1 c (List.mem_map.mpr ⟨c, hc, if_neg hdigit⟩)
  · simpa [outline] using htemplate.2

theorem clear_displacementText (d : Int) : Clear (displacementText d).toList := by
  have hdigits : Clear (Nat.toDigits 10 d.natAbs) := by
    have hall : ∀ d < 10, Clear [Nat.digitChar d] := by decide
    obtain ⟨ds, hds, _, hlt, _⟩ := Text.toDigits_digits (show 1 < 10 by omega) d.natAbs
    intro c hc
    rw [hds] at hc
    obtain ⟨d, hd, rfl⟩ := List.mem_map.mp hc
    exact hall d (hlt d hd) _ (List.mem_singleton_self _)
  have hplus : Clear (if 0 ≤ d then "+" else "").toList := by split <;> decide
  have hminus : Clear (Text.signText d) := by
    unfold Text.signText
    split <;> decide
  simp only [displacementText, Text.decimal, String.toList_append, String.toList_ofList,
    clear_append]
  exact ⟨hplus, hminus, hdigits⟩

theorem clear_comment {mode : Mode} {bytes : List UInt8} {next : Int} {operand : Operand}
    (h : operand? mode bytes next = some operand) : Clear operand.comment.toList := by
  have hempty : Clear "".toList := by decide
  cases mode
  case relative =>
    obtain ⟨b, _, rfl⟩ := Option.map_eq_some_iff.mp h
    exact clear_displacementText _
  case implied | accumulator =>
    cases h
    exact hempty
  all_goals
    obtain ⟨_, _, rfl⟩ := Option.map_eq_some_iff.mp h
    exact hempty

/-- Whatever is decoded with parsed records has a line in which every part keeps to its columns. -/
theorem first_listable {table : DenseTable} (ht : table.Parsed) {address : Int} {opcode : UInt8}
    {rest : List UInt8} {i : Instruction} (h : first table address opcode rest = .ok i)
    (hrange : 0 ≤ i.address ∧ i.address < 65536) : Listable i := by
  have hregular := (ht.row_sound opcode).regular
  have hlength := hregular.length_eq
  have hmode := (table.row opcode).record.mode.length_le
  rcases first_cases h with ⟨hcut, rfl⟩ | ⟨hroom, operand, hoperand, rfl⟩
  · have hmark : Solid "???".toList ∧ "???".toList.length ≤ 7 := by decide
    have hcomment : Clear "incomplete instruction".toList := by decide
    refine ⟨hrange.1, hrange.2, by simp [incomplete], ?_, hregular.mnemonic_text, hmark.1, hmark.2,
      hcomment⟩
    simp only [incomplete, List.length_cons]
    omega
  · refine ⟨hrange.1, hrange.2, by simp [complete], ?_, hregular.mnemonic_text,
      (solid_operand hoperand).1, (solid_operand hoperand).2, clear_comment hoperand⟩
    simp only [complete, List.length_cons, List.length_take]
    omega

end Decode

namespace ListingLine

open Declarations

/-- Lines that have characters are read back from a text without a break at its end. -/
theorem lines_intercalate {lines : List (List Char)}
    (h : ∀ line ∈ lines, OneLine line ∧ line ≠ []) :
    Text.lines (['\n'].intercalate lines) = lines := by
  rcases Text.lines_intercalate .lineFeed fun line hline => (h line hline).1 with hsame | hend
  · exact hsame.symm
  · exact absurd rfl (h [] (by rw [hend]; simp)).2

theorem listing_toList (found : List Instruction) :
    (Sweep.listing found).toList =
      ['\n'].intercalate (found.map fun i => i.listingLine.toList) := by
  simp [Sweep.listing, String.toList_intercalate, Function.comp_def]

theorem lines_listing {found : List Instruction} (h : ∀ i ∈ found, Listable i) :
    Text.lines (Sweep.listing found).toList = found.map fun i => i.listingLine.toList := by
  rw [listing_toList]
  apply lines_intercalate
  intro line hline
  obtain ⟨i, hi, rfl⟩ := List.mem_map.mp hline
  exact ⟨(h i hi).oneLine, (h i hi).ne_nil⟩

/-- No other character than the line feed breaks the lines. -/
theorem splitOn_listing {found : List Instruction} (h : ∀ i ∈ found, Listable i)
    (hne : found ≠ []) :
    (Sweep.listing found).toList.splitOn '\n' = found.map fun i => i.listingLine.toList := by
  rw [listing_toList]
  apply List.splitOn_intercalate
  · intro line hline hm
    obtain ⟨i, hi, rfl⟩ := List.mem_map.mp hline
    exact absurd ((h i hi).oneLine '\n' hm) (by decide)
  · simpa using hne

/-- All of an instruction that a listing shows is in its line, and the comment is set off where
comments are. -/
structure Shows (line : List Char) (i : Instruction) : Prop where
  read_eq : read line = some (shown i)
  separator_iff : ∀ k, separator <+: line.drop k ↔ i.comment ≠ "" ∧ k = 32

theorem shows_lines {found : List Instruction} (h : ∀ i ∈ found, Listable i) :
    List.Forall₂ Shows (found.map fun i => i.listingLine.toList) found := by
  rw [List.forall₂_map_left_iff, List.forall₂_same]
  intro i hi
  exact ⟨(h i hi).read_listingLine, (h i hi).separator_iff⟩

theorem mapM_readBytes {found : List Instruction} (h : ∀ i ∈ found, Listable i) :
    (found.map fun i => i.listingLine.toList).mapM (fun line => readBytes (columns line 7 14)) =
      some (found.map Instruction.rawBytes) := by
  apply mapM_map_some
  intro i hi
  rw [(h i hi).columns_bytes, readBytes_byteColumn]

end ListingLine

namespace Sweep

open ListingLine

theorem Run.listable {table : DenseTable} (ht : table.Parsed) {address : Int} {bytes : List UInt8}
    {found : List Instruction} (h : Run table address bytes found)
    (hstart : 0 ≤ address ∧ address < 65536) : ∀ i ∈ found, Listable i := by
  intro i hi
  obtain ⟨opcode, rest, hfirst⟩ := h.mem_first i hi
  exact Decode.first_listable ht hfirst (h.address_range ht.adequate hstart i hi)

/-- The listing of a sweep has a line for each instruction and shows all of it. Without a count its
byte columns are the buffer. -/
theorem listing_shows (table : DenseTable) (ht : table.Parsed) (data : Array UInt8) (start : Int)
    (hstart : 0 ≤ start ∧ start ≤ 0xFFFF) (count : Option Int) :
    ∃ found, sweep table data start { count := count } = .ok found ∧
      List.Forall₂ Shows (Text.lines (listing found).toList) found ∧
      (found ≠ [] → (listing found).toList.splitOn '\n' = Text.lines (listing found).toList) ∧
      (count = none → ∃ bytes,
        (Text.lines (listing found).toList).mapM (fun line => readBytes (columns line 7 14)) =
          some bytes ∧
        bytes.flatten = data.toList) := by
  obtain ⟨run, hrun, hsweep⟩ := sweep_count ht.adequate data start
  have hlistable : ∀ i ∈ upTo (count.map Int.toNat) run, Listable i := fun i hi =>
    hrun.listable ht ⟨hstart.1, by omega⟩ i (mem_of_mem_upTo hi)
  refine ⟨_, hsweep count, ?_⟩
  rw [lines_listing hlistable]
  refine ⟨shows_lines hlistable, splitOn_listing hlistable, ?_⟩
  rintro rfl
  refine ⟨_, mapM_readBytes hlistable, ?_⟩
  rw [← List.flatMap_def]
  exact hrun.bytes ht.adequate

/-- A branch at the end of the address space to itself, a byte without an instruction, and a branch
that the end of the buffer cuts off. -/
theorem listing_shows_branch :
    ∃ table found, (DenseTable.build .refuse Sample.branchOnly).result = .ok table ∧
      sweep table #[0xD0, 0xFE, 0xEA, 0xD0] 0xFFFF {} = .ok found ∧
      listing found =
        "$FFFF: D0 FE     BNE $FFFF       ; -2\n" ++
        "$0001: EA        UNK\n" ++
        "$0002: D0        BNE ???         ; incomplete instruction" ∧
      List.Forall₂ Shows (Text.lines (listing found).toList) found ∧
      ∃ bytes,
        (Text.lines (listing found).toList).mapM (fun line => readBytes (columns line 7 14)) =
          some bytes ∧
        bytes.flatten = [0xD0, 0xFE, 0xEA, 0xD0] := by
  obtain ⟨table, htable, hparsed⟩ := Sample.exists_branch
  obtain ⟨found, hsweep, hshows, _, hbytes⟩ :=
    listing_shows table hparsed #[0xD0, 0xFE, 0xEA, 0xD0] 0xFFFF (by omega) none
  have hlisting : ((DenseTable.build .refuse Sample.branchOnly).result.bind fun table =>
      (sweep table #[0xD0, 0xFE, 0xEA, 0xD0] 0xFFFF {}).map listing) =
        .ok ("$FFFF: D0 FE     BNE $FFFF       ; -2\n" ++ "$0001: EA        UNK\n" ++
          "$0002: D0        BNE ???         ; incomplete instruction") := by decide +kernel
  rw [htable] at hlisting
  simp only [Except.bind, hsweep, Except.map, Except.ok.injEq] at hlisting
  exact ⟨table, found, htable, hsweep, hlisting, hshows, hbytes rfl⟩

end Sweep

end Cpu6502
