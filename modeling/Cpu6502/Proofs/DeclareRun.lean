import Cpu6502.Cli.Declare
import Cpu6502.Proofs.CommandLine
import Cpu6502.Proofs.ShownTexts
import Cpu6502.Proofs.TableRejection

namespace Cpu6502.Cli.Declare

variable {files : Files} {words : List RawText} {request : Request}

/-- An accepted command line asks for a table that can be read, and a path without idle parts. -/
theorem request_of_command (h : tool.command files words = .ok (.perform request)) :
    (tableAt files request.table).Readable ∧
      ∃ value : Option RawText, request.output = value.map Path.normalise := by
  obtain ⟨a, haccepts⟩ := accepts_of_command h
  have hrequest : Declare.request files a = .ok request := haccepts.request_eq
  unfold Declare.request at hrequest
  split at hrequest
  · cases hrequest
    refine ⟨readable_tableAt ?_, _, rfl⟩
    intro path hpath
    have hcheck := haccepts.check hpath
    simpa [tool, check, hpath] using hcheck
  · cases hrequest

theorem unescaped_declarations {source : TableSource} (h : source.Readable)
    {policy : RepeatPolicy} {text : String}
    (htext : (source.declarations policy {}).result = .ok text) : Unescaped text := by
  obtain ⟨table, htable, rfl⟩ := TableSource.declarations_ok_iff.mp htext
  have hcompiled := TableSource.compiled_of_denseTable h htable
  exact Declarations.unescaped_all hcompiled Identifiers.plain_default

theorem exists_declarations {source : TableSource} (h : source.Readable) (policy : RepeatPolicy) :
    (∃ text, (source.declarations policy {}).result = .ok text) ↔ ¬ source.Rejected policy := by
  rw [← TableSource.exists_denseTable_iff h]
  constructor
  · rintro ⟨text, htext⟩
    obtain ⟨table, htable, _⟩ := TableSource.declarations_ok_iff.mp htext
    exact ⟨table, htable⟩
  · rintro ⟨table, htable⟩
    exact ⟨_, TableSource.declarations_ok_iff.mpr ⟨table, htable, rfl⟩⟩

/-- A run leaves the declarations of its table all in one place, or nothing at all. -/
theorem run_all_or_nothing (h : tool.command files words = .ok (.perform request))
    (console : Console) :
    ∃ status stdout after, (tool.run console files words).EndsWith status stdout after ∧
      (status.code = 0 → ∃ text,
        ((tableAt files request.table).declarations request.policy {}).result = .ok text ∧
        Delivered files request.output text stdout after) ∧
      (status.code ≠ 0 → stdout = [] ∧ after = files) ∧
      (status.code = 1 ↔ (tableAt files request.table).Rejected request.policy) ∧
      (status.code = 0 ↔ ¬ (tableAt files request.table).Rejected request.policy ∧
        Openable files request.output) := by
  obtain ⟨hreadable, value, houtput⟩ := request_of_command h
  have hexists := exists_declarations hreadable request.policy
  have hrun : tool.run console files words = perform console files request :=
    run_of_command h console
  simp only [hrun, perform]
  cases hresult : ((tableAt files request.table).declarations request.policy {}).result with
  | error fault =>
    have hrejected : (tableAt files request.table).Rejected request.policy := by
      by_contra haccepted
      obtain ⟨text, htext⟩ := hexists.mpr haccepted
      rw [hresult] at htext
      cases htext
    obtain ⟨error, rfl, _⟩ :=
      TableSource.declarations_failsOnlyWith hreadable request.policy {} fault hresult
    refine ⟨.buildError, [], files, failed_endsWith console files request.verbose _ activity _, ?_⟩
    simp [ExitStatus.code, hrejected]
  | ok text =>
    have haccepted := hexists.mp ⟨text, hresult⟩
    obtain ⟨status, stdout, after, hends, hdelivery⟩ := deliver_delivery console files
      request.verbose ((tableAt files request.table).declarations request.policy {}).log activity
      value text []
    rw [← houtput] at hends hdelivery
    have hcomplete := hdelivery.complete fun _ => unescaped_declarations hreadable hresult
    refine ⟨status, stdout, after, hends, ?_, hcomplete.failure, ?_, ?_⟩
    · exact fun hzero => ⟨text, rfl, hcomplete.delivered hzero⟩
    · exact ⟨fun hone => absurd hone hdelivery.code_ne_one,
        fun hrejected => absurd hrejected haccepted⟩
    · rw [hcomplete.success, and_iff_right haccepted]

/-- The declarations of a table are written over it. -/
theorem run_all_or_nothing_same_file :
    let files : Files :=
      { workingDirectory := [("w" : String)]
        entries := [([("w" : String), ("t" : String)], "Implied|NOP|EA|1".toUTF8)] }
    let words : List RawText := ["-t", "t", "-o", "./t"].map .ofText
    let request : Request := { table := some ("t" : String), output := some ("t" : String) }
    tool.command files words = .ok (.perform request) ∧
    ∃ status stdout after text, (tool.run .redirected files words).EndsWith status stdout after ∧
      status.code = 0 ∧ stdout = [] ∧
      ((tableAt files request.table).declarations .refuse {}).result = .ok text ∧
      files.Written after ("t" : String) text.toUTF8 := by
  intro files words request
  have hcommand : tool.command files words = .ok (.perform request) := by rfl
  obtain ⟨status, stdout, after, hends, hsuccess, _, _, hcode⟩ :=
    run_all_or_nothing hcommand .redirected
  have hreadable := (request_of_command hcommand).1
  have haccepted : ¬ (tableAt files request.table).Rejected .refuse := by
    apply (TableSource.exists_denseTable_iff hreadable).mp
    exact except_isOk_iff.mp (by decide +kernel)
  have hopenable : Openable files request.output := ⟨["w", "t"].map .ofText, by rfl⟩
  have hzero := hcode.mpr ⟨haccepted, hopenable⟩
  obtain ⟨text, htext, hstdout, hwritten⟩ := hsuccess hzero
  exact ⟨hcommand, status, stdout, after, text, hends, hzero, hstdout, htext, hwritten⟩

end Cpu6502.Cli.Declare
