import Cpu6502.Cli.Listing
import Cpu6502.Proofs.CommandLine
import Cpu6502.Proofs.ShownTexts
import Cpu6502.Proofs.TableRejection

namespace Cpu6502.Cli.Listing

variable {console : Console} {files : Files} {words : List RawText} {request : Request}
  {data : ByteArray} {address : Int} {found : List Instruction}

/-- A text of lines, each with a line feed at its end. -/
def ended (lines : List RawText) : RawText := lines.flatMap (· ++ [.char '\n'])

theorem intercalate_eq_ended {lines : List RawText} (h : lines ≠ []) :
    [.char '\n'].intercalate lines ++ [.char '\n'] = ended lines := by
  induction lines with
  | nil => exact absurd rfl h
  | cons line rest ih =>
    cases rest with
    | nil => simp [ended]
    | cons next rest =>
      rw [List.intercalate_cons_cons, List.append_assoc, ih (List.cons_ne_nil next rest)]
      rfl

theorem ended_ofText (lines : List String) :
    ended (lines.map .ofText) = RawText.ofText (.join (lines.map (· ++ "\n"))) := by
  induction lines with
  | nil => rfl
  | cons line rest ih =>
    rw [List.map_cons, List.map_cons, String.join_cons, RawText.append_ofText,
      RawText.append_ofText, ← ih]
    rfl

theorem unescaped_join {texts : List String} (h : ∀ text ∈ texts, Unescaped text) :
    Unescaped (.join texts) := by
  induction texts with
  | nil => decide
  | cons text rest ih =>
    rw [List.forall_mem_cons] at h
    rw [String.join_cons, Unescaped.append_iff]
    exact ⟨h.1, ih h.2⟩

theorem unescaped_upperHex {width : Nat} (hwidth : 0 < width) (n : Nat) :
    Unescaped (Text.upperHex width n) := by
  obtain ⟨ds, hds, _, hlt, _⟩ := Text.upperHex_digits hwidth (n := n)
  rw [Unescaped, hds]
  exact (ListingLine.solid_upperDigits hlt).clear.no_escape

/-- A header below a name of characters is made of texts, and the name alone can have an escape
character in it. -/
theorem header_ofText (name : String) (size : Nat) (h : 0 ≤ address) :
    ∃ lines : List String, header name size address = lines.map .ofText ∧
      (Unescaped name → ∀ line ∈ lines, Unescaped line) := by
  obtain ⟨n, rfl⟩ := Int.eq_ofNat_of_zero_le h
  refine ⟨["; Disassembly of " ++ name, "; Size: " ++ Text.decimal size ++ " bytes",
    "; Base address: $" ++ Text.upperHex 4 n, ""], ?_, ?_⟩
  · rw [List.map_cons, RawText.append_ofText]
    rfl
  · intro hname
    have hdecimal : Unescaped (Text.decimal size) := Declarations.unescaped_decimal size
    have hdigits : Unescaped (Text.upperHex 4 n) := unescaped_upperHex (by omega) n
    simp only [List.forall_mem_cons, List.not_mem_nil, false_imp_iff, implies_true, and_true,
      Unescaped.append_iff, hname, hdecimal, hdigits]
    decide

/-- The lines of a file with the listing of some instructions below its header. -/
def fileLines (name : RawText) (size : Nat) (address : Int) (found : List Instruction) :
    List RawText :=
  header name size address ++ (Text.lines (Sweep.listing found).toList).map (·.map .char)

theorem fileLines_eq (h : ∀ i ∈ found, ListingLine.Listable i) (name : RawText) (size : Nat)
    (address : Int) :
    fileLines name size address found =
      header name size address ++ found.map fun i => RawText.ofText i.listingLine := by
  rw [fileLines, ListingLine.lines_listing h, List.map_map]
  rfl

theorem text_eq (h : ∀ i ∈ found, ListingLine.Listable i) (name : RawText) (size : Nat)
    (address : Int) : text name size address found = ended (fileLines name size address found) := by
  rw [fileLines_eq h, ← intercalate_eq_ended (by simp [header]), text]

theorem mem_fileLines {s : Symbol} {name : RawText} (h : s ∈ name) {size : Nat} :
    s ∈ ended (fileLines name size address found) := by
  simp [ended, fileLines, header, h]

/-- The whole file is a text if the name in it is. -/
theorem exists_text (h : ∀ i ∈ found, ListingLine.Listable i) (name : String) (size : Nat)
    (haddress : 0 ≤ address) :
    ∃ text : String, (text : RawText) = ended (fileLines name size address found) ∧
      (Unescaped name → Unescaped text) := by
  obtain ⟨lines, hheader, hplain⟩ := header_ofText name size haddress
  have hlines : fileLines name size address found =
      (lines ++ found.map Instruction.listingLine).map .ofText := by
    rw [fileLines_eq h, hheader, List.map_append, List.map_map]
    rfl
  refine ⟨_, (hlines ▸ ended_ofText _).symm, fun hname => unescaped_join ?_⟩
  have hfeed : Unescaped "\n" := by decide
  rw [List.forall_mem_map]
  intro line hline
  rw [Unescaped.append_iff, and_iff_left hfeed]
  rcases List.mem_append.mp hline with hmem | hmem
  · exact hplain hname line hmem
  · obtain ⟨i, hi, rfl⟩ := List.mem_map.mp hmem
    exact (h i hi).unescaped

/-- Arguments and an input that a listing can be made of. -/
structure Usable (request : Request) (data : ByteArray) (address : Int) : Prop where
  read : readAddress? request.address = some address
  nonneg : 0 ≤ address
  le : address ≤ 0xFFFF
  nonempty : data.size ≠ 0

/-- Without an address a listing starts at zero. -/
theorem readAddress_default (h : request.address = ("0" : String)) :
    readAddress? request.address = some 0 := by
  rw [h]
  decide +kernel

theorem input_of_command (h : tool.command files words = .ok (.perform request)) :
    (tableAt files request.table).Readable ∧
      (∃ value : Option RawText, request.output = value.map Path.normalise) ∧
      ∃ data, files.read request.input = .ok data := by
  obtain ⟨a, haccepts⟩ := accepts_of_command h
  have hrequest : Listing.request files a = .ok request := haccepts.request_eq
  unfold Listing.request at hrequest
  split at hrequest
  · cases hrequest
  · obtain ⟨_, hinput, hrequest⟩ := except_bind_ok.mp hrequest
    split at hrequest
    · cases hrequest
      refine ⟨readable_tableAt ?_, ⟨_, rfl⟩, read_of_checkInput hinput⟩
      intro path hpath
      have hcheck := haccepts.check hpath
      simpa [tool, check, hpath] using hcheck
    · cases hrequest

theorem inRange_iff : Address.inRange address = true ↔ 0 ≤ address ∧ address ≤ 0xFFFF := by
  simp [Address.inRange]

theorem isEmpty_iff : data.isEmpty = true ↔ data.size = 0 := by
  simp [ByteArray.isEmpty]

theorem perform_usable (hread : files.read request.input = .ok data)
    (h : Usable request data address) :
    perform console files request = listInput console files request data address := by
  have hrange := inRange_iff.mpr ⟨h.nonneg, h.le⟩
  have hempty : data.isEmpty = false := by simpa [ByteArray.isEmpty] using h.nonempty
  simp only [perform, h.read, hrange, hread, hempty]
  rfl

/-- Whatever the table holds, a run without a usable address and input ends before it is read. -/
theorem perform_unusable (hread : files.read request.input = .ok data)
    (h : ∀ address, ¬ Usable request data address) :
    (perform console files request).EndsWith .invalidArguments [] files := by
  unfold perform
  split
  · exact failed_endsWith console files request.verbose [] activity _
  · rename_i address haddress
    split
    · rename_i hrange
      rw [hread]
      split
      · rename_i cause hcause
        cases hcause
      · rename_i data' hdata
        cases hdata
        obtain ⟨hnonneg, hle⟩ := inRange_iff.mp hrange
        have hempty : data.isEmpty = true := by
          rw [isEmpty_iff]
          by_contra hne
          exact h address ⟨haddress, hnonneg, hle, hne⟩
        rw [if_pos hempty]
        exact failed_endsWith console files request.verbose [] activity _
    · exact failed_endsWith console files request.verbose [] activity _

theorem decodeInput_result (files : Files) (r : Request) (data : ByteArray) (address : Int) :
    (decodeInput files r data address).result =
      ((tableAt files r.table).denseTable .refuse >>= fun table =>
        .ofExcept (Sweep.sweep table data.data address { count := r.count })).result :=
  (Logged.result_bind rfl).trans (Logged.result_bind rfl)

theorem decodeInput_rejected (data : ByteArray) (address : Int)
    (hreadable : (tableAt files request.table).Readable)
    (h : (tableAt files request.table).Rejected .refuse) :
    ∃ error, (decodeInput files request data address).result = .error (.table error) := by
  obtain ⟨error, herror⟩ := h.denseTable_error hreadable
  rw [decodeInput_result]
  exact ⟨error, Logged.bind_error.mpr (.inl herror)⟩

theorem decodeInput_accepted (data : ByteArray)
    (hreadable : (tableAt files request.table).Readable)
    (h : ¬ (tableAt files request.table).Rejected .refuse)
    (haddress : 0 ≤ address ∧ address ≤ 0xFFFF) :
    ∃ table found, ((tableAt files request.table).denseTable .refuse).result = .ok table ∧
      Sweep.sweep table data.data address { count := request.count } = .ok found ∧
      (decodeInput files request data address).result = .ok found ∧
      ∀ i ∈ found, ListingLine.Listable i := by
  obtain ⟨table, htable⟩ := (TableSource.exists_denseTable_iff hreadable).mpr h
  have hparsed := (TableSource.compiled_of_denseTable hreadable htable).parsed
  obtain ⟨run, hrun, hsweep⟩ := Sweep.sweep_count hparsed.adequate data.data address
  refine ⟨table, _, htable, hsweep request.count, ?_, ?_⟩
  · rw [decodeInput_result]
    exact Logged.bind_ok.mpr ⟨table, htable, hsweep request.count⟩
  · intro i hi
    exact hrun.listable hparsed ⟨haddress.1, by omega⟩ i (Sweep.mem_of_mem_upTo hi)

/-- The name of the input can be written whole where it goes: on a stream no control sequence may
start in it. -/
def Nameable (request : Request) : Prop :=
  ∃ name : String, Path.fileName request.input = name ∧
    (request.output = none → Unescaped name)

/-- How a run ends that has a usable address and input. -/
structure Settled (console : Console) (files : Files) (request : Request) (data : ByteArray)
    (address : Int) (status : ExitStatus) (stdout : RawText) (after : Files) : Prop where
  rejected : status.code = 1 ↔ (tableAt files request.table).Rejected .refuse
  refused : (tableAt files request.table).Rejected .refuse → stdout = [] ∧ after = files
  delivery : ¬ (tableAt files request.table).Rejected .refuse → ∃ table found,
    ((tableAt files request.table).denseTable .refuse).result = .ok table ∧
    Sweep.sweep table data.data address { count := request.count } = .ok found ∧
    Delivery console files
      (ended (fileLines (Path.fileName request.input) data.size address found)) request.output
      status stdout after
  success : Nameable request → (status.code = 0 ↔
    ¬ (tableAt files request.table).Rejected .refuse ∧ Openable files request.output)
  delivered : Nameable request → status.code = 0 → ∃ table found, ∃ text : String,
    ((tableAt files request.table).denseTable .refuse).result = .ok table ∧
    Sweep.sweep table data.data address { count := request.count } = .ok found ∧
    (text : RawText) =
      ended (fileLines (Path.fileName request.input) data.size address found) ∧
    Delivered files request.output text stdout after
  failure : Nameable request → status.code ≠ 0 → stdout = [] ∧ after = files
  /-- A byte without a character in the name leaves the output file empty. -/
  emptied : ∀ b path, .byte b ∈ Path.fileName request.input → request.output = some path →
    ¬ (tableAt files request.table).Rejected .refuse → Openable files request.output →
    status.code = 3 ∧ stdout = [] ∧ files.Written after path .empty

theorem settled_of_rejected (data : ByteArray)
    (hrejected : (tableAt files request.table).Rejected .refuse) :
    Settled console files request data address .buildError [] files where
  rejected := by simp [ExitStatus.code, hrejected]
  refused _ := ⟨rfl, rfl⟩
  delivery haccepted := absurd hrejected haccepted
  success _ := by simp [ExitStatus.code, hrejected]
  delivered _ hzero := by simp [ExitStatus.code] at hzero
  failure _ _ := ⟨rfl, rfl⟩
  emptied _ _ _ _ haccepted := absurd hrejected haccepted

theorem listInput_settled (console : Console) (data : ByteArray) {value : Option RawText}
    (houtput : request.output = value.map Path.normalise)
    (hreadable : (tableAt files request.table).Readable)
    (haddress : 0 ≤ address ∧ address ≤ 0xFFFF) :
    ∃ status stdout after,
      (listInput console files request data address).EndsWith status stdout after ∧
      Settled console files request data address status stdout after := by
  by_cases hrejected : (tableAt files request.table).Rejected .refuse
  · obtain ⟨error, herror⟩ := decodeInput_rejected data address hreadable hrejected
    refine ⟨.buildError, [], files, ?_, settled_of_rejected data hrejected⟩
    simp only [listInput, herror]
    exact failed_endsWith console files request.verbose _ activity _
  · obtain ⟨table, found, htable, hsweep, hdecoded, hlistable⟩ :=
      decodeInput_accepted data hreadable hrejected haddress
    obtain ⟨status, stdout, after, hends, hdelivery⟩ := deliver_delivery console files
      request.verbose (decodeInput files request data address).log activity value
      (text (Path.fileName request.input) data.size address found)
      [{ level := .debug, text := "Instructions disassembled: " ++ Text.decimal found.length }]
    rw [← houtput] at hends hdelivery
    rw [text_eq hlistable] at hdelivery
    have hcomplete : Nameable request → ∃ text : String,
        (text : RawText) =
          ended (fileLines (Path.fileName request.input) data.size address found) ∧
        Complete files request.output text status stdout after := by
      rintro ⟨name, hname, hplain⟩
      obtain ⟨text, htext, hunescaped⟩ := exists_text hlistable name data.size haddress.1
      rw [hname, ← htext] at hdelivery
      rw [hname]
      exact ⟨text, htext, hdelivery.complete fun hnone => hunescaped (hplain hnone)⟩
    refine ⟨status, stdout, after, ?_, ?_⟩
    · simp only [listInput, hdecoded]
      exact hends
    · exact {
        rejected := ⟨fun hone => absurd hone hdelivery.code_ne_one, fun h => absurd h hrejected⟩
        refused := fun h => absurd h hrejected
        delivery := fun _ => ⟨table, found, htable, hsweep, hdelivery⟩
        success := by
          intro hname
          obtain ⟨_, _, hall⟩ := hcomplete hname
          rw [hall.success, and_iff_right hrejected]
        delivered := by
          intro hname hzero
          obtain ⟨text, htext, hall⟩ := hcomplete hname
          exact ⟨table, found, text, htable, hsweep, htext, hall.delivered hzero⟩
        failure := by
          intro hname hcode
          obtain ⟨_, _, hall⟩ := hcomplete hname
          exact hall.failure hcode
        emptied := by
          intro b path hbyte hpath _ hopens
          rw [hpath] at hdelivery hopens
          exact hdelivery.emptied_of_byte (mem_fileLines hbyte) hopens }

/-- The address and the input decide before the table does. With a table that is not rejected the
listing is all in one place, as long as the name in its header can be written whole there. -/
theorem run_listing (h : tool.command files words = .ok (.perform request))
    (console : Console) :
    ∃ data status stdout after, files.read request.input = .ok data ∧
      (tool.run console files words).EndsWith status stdout after ∧
      ((∀ address, ¬ Usable request data address) →
        status.code = 2 ∧ stdout = [] ∧ after = files) ∧
      (∀ address, Usable request data address →
        Settled console files request data address status stdout after) := by
  obtain ⟨hreadable, ⟨value, houtput⟩, data, hread⟩ := input_of_command h
  have hrun : tool.run console files words = perform console files request :=
    run_of_command h console
  rw [hrun]
  by_cases husable : ∃ address, Usable request data address
  · obtain ⟨address, husable⟩ := husable
    obtain ⟨status, stdout, after, hends, hsettled⟩ := listInput_settled console data
      houtput hreadable ⟨husable.nonneg, husable.le⟩
    rw [← perform_usable hread husable] at hends
    refine ⟨data, status, stdout, after, hread, hends, fun hnone => absurd husable (hnone address),
      ?_⟩
    intro address' husable'
    cases husable.read.symm.trans husable'.read
    exact hsettled
  · rw [not_exists] at husable
    refine ⟨data, .invalidArguments, [], files, hread, perform_unusable hread husable, ?_, ?_⟩
    · simp [ExitStatus.code]
    · exact fun address haddress => absurd haddress (husable address)

/-- One instruction of a small table, from a file with a plain name and from one whose name is a
byte without a character. -/
theorem run_listing_to_file :
    let table : List RawText := [("w" : String), ("t" : String)]
    let plain : List RawText := [("w" : String), ("p" : String)]
    let stray : List RawText := [("w" : String), [.byte 0xFF]]
    let files : Files :=
      { workingDirectory := [("w" : String)]
        entries := [(table, "Implied|NOP|EA|1".toUTF8), (plain, ⟨#[0xEA]⟩), (stray, ⟨#[0xEA]⟩)] }
    let words (input : RawText) : List RawText :=
      [("-t" : String), ("t" : String), input, ("--output=out" : String)]
    let request (input : RawText) : Request :=
      { input := input, output := some ("out" : String), table := some ("t" : String) }
    (∃ status stdout after table found, ∃ text : String,
      tool.command files (words ("./p" : String)) = .ok (.perform (request ("p" : String))) ∧
      (tool.run .redirected files (words ("./p" : String))).EndsWith status stdout after ∧
      status.code = 0 ∧ stdout = [] ∧ Sweep.sweep table #[0xEA] 0 {} = .ok found ∧
      (text : RawText) = ended (fileLines ("p" : String) 1 0 found) ∧
      files.Written after ("out" : String) text.toUTF8) ∧
    ∃ status stdout after,
      tool.command files (words [.byte 0xFF]) = .ok (.perform (request [.byte 0xFF])) ∧
      (tool.run .redirected files (words [.byte 0xFF])).EndsWith status stdout after ∧
      status.code = 3 ∧ stdout = [] ∧ files.Written after ("out" : String) .empty := by
  intro table plain stray files words request
  have hplain : tool.command files (words ("./p" : String)) =
      .ok (.perform (request ("p" : String))) := by rfl
  have hstray : tool.command files (words [.byte 0xFF]) =
      .ok (.perform (request [.byte 0xFF])) := by rfl
  have haccepted : ¬ (tableAt files (some ("t" : String))).Rejected .refuse := by
    apply (TableSource.exists_denseTable_iff (input_of_command hplain).1).mp
    exact except_isOk_iff.mp (by decide +kernel)
  have hopens : Openable files (some ("out" : String)) := ⟨["w", "out"].map .ofText, by rfl⟩
  constructor
  · obtain ⟨data, status, stdout, after, hread, hends, _, hsettled⟩ :=
      run_listing hplain .redirected
    have hdata : files.read ("p" : String) = .ok ⟨#[0xEA]⟩ := by rfl
    cases hread.symm.trans hdata
    have hsettled := hsettled 0 ⟨readAddress_default rfl, by decide, by decide, by decide⟩
    have hname : Path.fileName ("p" : String) = ("p" : String) := by decide
    have hnameable : Nameable (request ("p" : String)) := ⟨"p", hname, nofun⟩
    have hzero := (hsettled.success hnameable).mpr ⟨haccepted, hopens⟩
    obtain ⟨table, found, text, _, hsweep, htext, hstdout, hwritten⟩ :=
      hsettled.delivered hnameable hzero
    rw [show Path.fileName (request ("p" : String)).input = ("p" : String) from hname] at htext
    exact ⟨status, stdout, after, table, found, text, hplain, hends, hzero, hstdout, hsweep, htext,
      hwritten⟩
  · obtain ⟨data, status, stdout, after, hread, hends, _, hsettled⟩ :=
      run_listing hstray .redirected
    have hdata : files.read [.byte 0xFF] = .ok ⟨#[0xEA]⟩ := by rfl
    cases hread.symm.trans hdata
    have hsettled := hsettled 0 ⟨readAddress_default rfl, by decide, by decide, by decide⟩
    have hbyte : .byte 0xFF ∈ Path.fileName [.byte 0xFF] := by decide
    exact ⟨status, stdout, after, hstray, hends,
      hsettled.emptied 0xFF _ hbyte rfl haccepted hopens⟩

/-- A control sequence in the name of an input is left out where the name is shown. -/
theorem run_listing_name_cut :
    let name : RawText := ("\x1b[mp" : String)
    let files : Files :=
      { workingDirectory := [("w" : String)]
        entries := [([("w" : String), ("t" : String)], "Implied|NOP|EA|1".toUTF8),
          ([("w" : String), name], ⟨#[0xEA]⟩)] }
    let words : List RawText := [("-t" : String), ("t" : String), name]
    let request : Request := { input := name, table := some ("t" : String) }
    let shown : String :=
      "; Disassembly of p\n; Size: 1 bytes\n; Base address: $0000\n\n$0000: EA        NOP\n"
    tool.command files words = .ok (.perform request) ∧
    files.read name = .ok ⟨#[0xEA]⟩ ∧ Usable request ⟨#[0xEA]⟩ 0 ∧
    ¬ (tableAt files request.table).Rejected .refuse ∧
    (∃ after, (tool.run .redirected files words).EndsWith .success shown after) ∧
    ∀ found, (shown : RawText) ≠ ended (fileLines (Path.fileName name) 1 0 found) := by
  intro name files words request shown
  have hcommand : tool.command files words = .ok (.perform request) := by rfl
  have hrun : (match tool.run .redirected files words with
      | .finished status stdout _ _ => some (status, stdout)
      | .rejected _ => none) = some (.success, (shown : RawText)) := by decide +kernel
  refine ⟨hcommand, by rfl, ⟨readAddress_default rfl, by decide, by decide, by decide⟩, ?_, ?_, ?_⟩
  · apply (TableSource.exists_denseTable_iff (input_of_command hcommand).1).mp
    exact except_isOk_iff.mp (by decide +kernel)
  · split at hrun
    · rename_i status stdout stderr after houtcome
      cases hrun
      exact ⟨after, stderr, houtcome⟩
    · cases hrun
  · intro found hshown
    have hescape : .char Text.escape ∈ Path.fileName name := by decide
    have hmem : .char Text.escape ∈ ended (fileLines (Path.fileName name) 1 0 found) :=
      mem_fileLines hescape
    rw [← hshown] at hmem
    exact absurd hmem (by decide)

end Cpu6502.Cli.Listing
