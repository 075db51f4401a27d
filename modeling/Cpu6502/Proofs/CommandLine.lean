import Cpu6502.Cli.Tool
import Cpu6502.Proofs.FileWrite
import Cpu6502.Proofs.TableFaults

namespace Cpu6502.Cli

theorem forM_ok {ε α : Type} {f : α → Except ε Unit} {xs : List α} (h : xs.forM f = .ok ()) :
    ∀ x ∈ xs, f x = .ok () := by
  induction xs with
  | nil => simp
  | cons x rest ih =>
    obtain ⟨_, hfirst, hrest⟩ := except_bind_ok.mp (List.forM_cons.symm.trans h)
    exact List.forall_mem_cons.mpr ⟨hfirst, ih hrest⟩

variable {ι ρ : Type} [BEq ι]

theorem mem_givenOptions [LawfulBEq ι] {a : Arguments ι} {option : ι} {value : RawText}
    (h : a.value? option = some value) : option ∈ a.givenOptions := by
  obtain ⟨entry, hfind, _⟩ := Option.map_eq_some_iff.mp h
  have hmem := List.mem_reverse.mp (List.mem_of_find?_eq_some hfind)
  have hoption : entry.1 = option := by simpa using List.find?_some hfind
  rw [Arguments.givenOptions, List.mem_eraseDups]
  exact hoption ▸ List.mem_map_of_mem hmem

/-- Arguments of which every option has a value that passes its check, and the request they make. -/
structure Accepts (tool : Tool ι ρ) (files : Files) (a : Arguments ι) (request : ρ) : Prop where
  check {option : ι} {value : RawText} (h : a.value? option = some value) :
    tool.check files a option = .ok ()
  request_eq : tool.request files a = .ok request

variable {tool : Tool ι ρ} {files : Files} {words : List RawText} {request : ρ}

theorem accepts_of_command [LawfulBEq ι] (h : tool.command files words = .ok (.perform request)) :
    ∃ a, Accepts tool files a request := by
  unfold Tool.command at h
  obtain ⟨a, _, h⟩ := except_bind_ok.mp h
  refine ⟨a, ?_⟩
  simp only at h
  split at h
  · split at h <;> cases h
  · obtain ⟨_, hchecks, h⟩ := except_bind_ok.mp h
    obtain ⟨made, hmade, h⟩ := except_bind_ok.mp h
    cases h
    exact ⟨fun hvalue => forM_ok hchecks _ (mem_givenOptions hvalue), hmade⟩

theorem run_of_command (h : tool.command files words = .ok (.perform request))
    (console : Console) : tool.run console files words = tool.perform console files request := by
  rw [Tool.run, h]

theorem read_of_checkInput {path : RawText} (h : checkInput files path = .ok ()) :
    ∃ content, files.read (Path.normalise path) = .ok content := by
  unfold checkInput at h
  split at h
  · rename_i place content hlookup
    exact ⟨content, Files.read_normalise hlookup⟩
  · cases h
  · cases h

/-- A table is readable that is the packaged one or has passed the check of its option. -/
theorem readable_tableAt {value : Option RawText}
    (h : ∀ path, value = some path → checkInput files path = .ok ()) :
    (tableAt files (value.map Path.normalise)).Readable := by
  cases value with
  | none => exact .packaged
  | some path =>
    obtain ⟨content, hread⟩ := read_of_checkInput (h path rfl)
    rw [Option.map_some, tableAt, hread]
    exact .file _ content

variable {console : Console} {output : Option RawText} {status : ExitStatus} {stdout : RawText}
  {after : Files}

/-- A run ends with a status, a text on the standard output, and the files after it. -/
def Outcome.EndsWith (outcome : Outcome) (status : ExitStatus) (stdout : RawText)
    (after : Files) : Prop :=
  ∃ stderr, outcome = .finished status stdout stderr after

theorem failed_endsWith (console : Console) (files : Files) (verbose : Bool)
    (log : List LogEntry) (activity : String) (failure : Failure) :
    (failed console files verbose log activity failure).EndsWith failure.status [] files :=
  ⟨_, rfl⟩

/-- A file that cannot be used is no fault of a table. -/
theorem code_of_access (path : RawText) (cause : AccessFault) :
    2 ≤ (Failure.ofFault (.access path cause)).status.code := by
  cases cause <;> simp [Failure.ofFault, Failure.status, ExitStatus.code]

/-- A file for the output can be opened. The standard output is open already. -/
def Openable (files : Files) : Option RawText → Prop
  | none => True
  | some path => ∃ place, files.target path = .ok place

/-- The ways in which the delivery of a text ends. A file is opened before its text is encoded, so
it is left empty where that cannot be done. -/
inductive Delivery (console : Console) (files : Files) (text : RawText) :
    Option RawText → ExitStatus → RawText → Files → Prop where
  | shown {onScreen : RawText} (hout : console.out text = .ok onScreen) :
      Delivery console files text none .success onScreen files
  | withheld {message : String} (hout : console.out text = .error message) :
      Delivery console files text none .internalError [] files
  | written {path : RawText} {content : ByteArray} {after : Files}
      (hencode : text.encode = .ok content) (hwritten : files.Written after path content) :
      Delivery console files text (some path) .success [] after
  | emptied {path : RawText} {message : String} {after : Files}
      (hencode : text.encode = .error message) (hwritten : files.Written after path .empty) :
      Delivery console files text (some path) .internalError [] after
  | unopened {path : RawText} {status : ExitStatus} (hopens : ¬ Openable files (some path))
      (hcode : 2 ≤ status.code) : Delivery console files text (some path) status [] files

theorem deliver_delivery (console : Console) (files : Files) (verbose : Bool)
    (log : List LogEntry) (activity : String) (value : Option RawText) (text : RawText)
    (closing : List LogEntry) :
    ∃ status stdout after,
      (deliver console files verbose log activity (value.map Path.normalise) text
        closing).EndsWith status stdout after ∧
      Delivery console files text (value.map Path.normalise) status stdout after := by
  cases value with
  | none =>
    simp only [Option.map_none, deliver]
    cases hout : console.out text with
    | error message => exact ⟨_, _, _, failed_endsWith .., .withheld hout⟩
    | ok onScreen => exact ⟨_, _, _, ⟨_, rfl⟩, .shown hout⟩
  | some path =>
    simp only [Option.map_some, deliver]
    cases hwrite : files.write (Path.normalise path) (text.encode.toOption.getD .empty) with
    | error cause =>
      have hopens : ¬ Openable files (some (Path.normalise path)) := by
        rintro ⟨place, htarget⟩
        rw [Files.write_ok_iff.mpr ⟨place, htarget, rfl⟩] at hwrite
        cases hwrite
      exact ⟨_, _, _, failed_endsWith .., .unopened hopens (code_of_access _ cause)⟩
    | ok after =>
      have hwritten := Files.write_written hwrite
      cases hencode : text.encode with
      | error message =>
        rw [hencode] at hwritten
        exact ⟨_, _, _, failed_endsWith .., .emptied hencode hwritten⟩
      | ok content =>
        rw [hencode] at hwritten
        exact ⟨_, _, _, ⟨_, rfl⟩, .written hencode hwritten⟩

/-- No way to deliver a text ends as if a table were at fault. -/
theorem Delivery.code_ne_one {text : RawText}
    (h : Delivery console files text output status stdout after) : status.code ≠ 1 := by
  cases h with
  | shown | withheld | written | emptied => simp [ExitStatus.code]
  | unopened _ hcode => omega

theorem Delivery.emptied_of_byte {text path : RawText} {b : UInt8} (hbyte : .byte b ∈ text)
    (hopens : Openable files (some path))
    (h : Delivery console files text (some path) status stdout after) :
    status.code = 3 ∧ stdout = [] ∧ files.Written after path .empty := by
  cases h with
  | written hencode =>
    rw [RawText.encode_of_byte hbyte] at hencode
    cases hencode
  | emptied _ hwritten => exact ⟨rfl, rfl, hwritten⟩
  | unopened hnot => exact absurd hopens hnot

/-- A text has gone to one place: to a file if there is a path, and else to the standard output. -/
def Delivered (files : Files) (output : Option RawText) (text : String) (stdout : RawText)
    (after : Files) : Prop :=
  match output with
  | none => stdout = text ∧ after = files
  | some path => stdout = [] ∧ files.Written after path text.toUTF8

/-- A text is all in one place if the output can be opened, and otherwise nothing is left. -/
structure Complete (files : Files) (output : Option RawText) (text : String)
    (status : ExitStatus) (stdout : RawText) (after : Files) : Prop where
  success : status.code = 0 ↔ Openable files output
  delivered : status.code = 0 → Delivered files output text stdout after
  failure : status.code ≠ 0 → stdout = [] ∧ after = files

/-- A text of characters is complete. On a stream no control sequence may start in it. -/
theorem Delivery.complete {text : String} (hplain : output = none → Text.escape ∉ text.toList)
    (h : Delivery console files text output status stdout after) :
    Complete files output text status stdout after := by
  cases h with
  | shown hout =>
    rw [console.out_text (hplain rfl)] at hout
    cases hout
    exact ⟨by simp [ExitStatus.code, Openable], fun _ => ⟨rfl, rfl⟩, by simp [ExitStatus.code]⟩
  | withheld hout =>
    rw [console.out_text (hplain rfl)] at hout
    cases hout
  | written hencode hwritten =>
    rw [RawText.encode_ofText] at hencode
    cases hencode
    obtain ⟨place, htarget, _⟩ := hwritten.place
    have hopens : Openable files (some _) := ⟨place, htarget⟩
    exact ⟨by simp [ExitStatus.code, hopens], fun _ => ⟨rfl, hwritten⟩, by simp [ExitStatus.code]⟩
  | emptied hencode =>
    rw [RawText.encode_ofText] at hencode
    cases hencode
  | unopened hopens hcode =>
    exact ⟨⟨fun hzero => by omega, fun h => absurd h hopens⟩, fun hzero => by omega,
      fun _ => ⟨rfl, rfl⟩⟩

end Cpu6502.Cli
