import Cpu6502.Proofs.OperandReader
import Cpu6502.Proofs.ParsedTable
import Cpu6502.Proofs.SweepRun

namespace Cpu6502

namespace Decode

/-- A dollar sign and four upper-case hexadecimal digits that are worth a number. -/
def ShowsAddress (text : String) (value : Nat) : Prop :=
  ∃ digits : List Char, text.toList = '$' :: digits ∧ digits.length = 4 ∧
    (∀ c ∈ digits, c ∈ "0123456789ABCDEF".toList) ∧ Text.readDigits 16 digits = some value

theorem showsAddress_upperHex {n : Nat} (hn : n < 16 ^ 4) :
    ShowsAddress ("$" ++ Text.upperHex 4 n) n := by
  obtain ⟨ds, hds, hlen, hlt, _⟩ := Text.upperHex_width (show 0 < 4 by omega) hn
  refine ⟨ds.map Text.upperDigit, by simp [hds], by simpa using hlen, ?_, ?_⟩
  · have hall : ∀ d < 16, Text.upperDigit d ∈ "0123456789ABCDEF".toList := by decide
    intro c hc
    obtain ⟨d, hd, rfl⟩ := List.mem_map.mp hc
    exact hall d (hlt d hd)
  · rw [← hds]
    exact Text.readDigits_upperHex (by omega) n

/-- How an instruction changes where its bytes move by a distance. -/
structure Moved (distance : Int) (i j : Instruction) : Prop where
  opcode_eq : j.opcode = i.opcode
  mnemonic_eq : j.mnemonic = i.mnemonic
  mode_eq : j.mode = i.mode
  operandBytes_eq : j.operandBytes = i.operandBytes
  size_eq : j.size = i.size
  rawBytes_eq : j.rawBytes = i.rawBytes
  comment_eq : j.comment = i.comment
  address : (j.address - i.address) % 65536 = distance % 65536
  operand_eq : i.mode ≠ .relative ∨ i.Incomplete → j.operand = i.operand
  target : i.mode = .relative → ¬ i.Incomplete →
    ∃ m n : Nat, ShowsAddress i.operand m ∧ ShowsAddress j.operand n ∧
      ((n : Int) - m) % 65536 = distance % 65536

/-- The target of a branch moves along with it, and its distance does not change. -/
theorem branch_moved {bytes : List UInt8} {next : Int} {operand : Operand}
    (h : branch next bytes = some operand) (next' : Int) :
    ∃ operand', branch next' bytes = some operand' ∧ operand'.comment = operand.comment ∧
      ∃ m n : Nat, ShowsAddress operand.text m ∧ ShowsAddress operand'.text n ∧
        ((n : Int) - m) % 65536 = (next' - next) % 65536 := by
  obtain ⟨b, hb, rfl⟩ := Option.map_eq_some_iff.mp h
  obtain ⟨m, hm, hmlt⟩ := target_range next b
  obtain ⟨n, hn, hnlt⟩ := target_range next' b
  refine ⟨_, Option.map_eq_some_iff.mpr ⟨b, hb, rfl⟩, rfl, m, n, ?_, ?_, ?_⟩
  · rw [hm]
    exact showsAddress_upperHex hmlt
  · rw [hn]
    exact showsAddress_upperHex hnlt
  · rw [← hm, ← hn]
    unfold target
    omega

/-- No operand but that of a branch depends on an address. -/
theorem operand?_of_ne_relative {mode : Mode} (h : mode ≠ .relative) (bytes : List UInt8)
    (next next' : Int) : operand? mode bytes next = operand? mode bytes next' := by
  cases mode
  case relative => exact absurd rfl h
  all_goals rfl

theorem first_moved {table : DenseTable} {address address' distance : Int} {opcode : UInt8}
    {rest : List UInt8} {i : Instruction} (h : first table address opcode rest = .ok i)
    (hdistance : (address' - address) % 65536 = distance % 65536) :
    ∃ j, first table address' opcode rest = .ok j ∧ Moved distance i j := by
  rcases first_cases h with ⟨hcut, rfl⟩ | ⟨hroom, operand, hoperand, rfl⟩
  · refine ⟨_, first_of_cut hcut address', rfl, rfl, rfl, rfl, rfl, rfl, rfl, hdistance,
      fun _ => rfl, ?_⟩
    intro _ hwhole
    exact absurd ⟨rfl, rfl, rfl⟩ hwhole
  · by_cases hmode : (table.row opcode).record.mode = .relative
    · have hbranch := hoperand
      rw [hmode] at hbranch
      obtain ⟨operand', hoperand', hcomment, m, n, hm, hn, hmn⟩ :=
        branch_moved hbranch (address' + (table.row opcode).record.length)
      refine ⟨_, first_of_operand hroom (by rw [hmode]; exact hoperand'), rfl, rfl, rfl, rfl, rfl,
        rfl, hcomment, hdistance, ?_, fun _ _ => ⟨m, n, hm, hn, by omega⟩⟩
      rintro (hother | hincomplete)
      · exact absurd hmode hother
      · exact absurd hincomplete.1 (operand_ne_mark hoperand)
    · rw [operand?_of_ne_relative hmode _ _
        (address' + (table.row opcode).record.length)] at hoperand
      exact ⟨_, first_of_operand hroom hoperand, rfl, rfl, rfl, rfl, rfl, rfl, rfl, hdistance,
        fun _ => rfl, fun hrelative => absurd hrelative hmode⟩

end Decode

namespace Sweep

open Decode

/-- Where the first address moves, all of a run moves. -/
theorem Run.moved {table : DenseTable} {address address' distance : Int} {bytes : List UInt8}
    {found : List Instruction} (h : Run table address bytes found)
    (hdistance : (address' - address) % 65536 = distance % 65536) :
    ∃ found', Run table address' bytes found' ∧ List.Forall₂ (Moved distance) found found' := by
  induction h generalizing address' with
  | nil => exact ⟨[], .nil address', .nil⟩
  | @cons address opcode rest i found head _ ih =>
    obtain ⟨j, hj, hmoved⟩ := first_moved head hdistance
    have hnext : (next j - next i) % 65536 = distance % 65536 := by
      have := hmoved.address
      have := hmoved.size_eq
      unfold next
      omega
    obtain ⟨found', htail, hfound'⟩ := ih hnext
    rw [← hmoved.rawBytes_eq] at htail
    exact ⟨j :: found', .cons hj htail, .cons hmoved hfound'⟩

/-- A buffer is decoded alike wherever it starts. Addresses and the targets of branches move with
the start, on the 16 bits of the bus, and all else stays. -/
theorem sweep_moved {table : DenseTable} (ht : table.Adequate) (data : Array UInt8)
    (start start' : Int) :
    ∃ found found', sweep table data start {} = .ok found ∧
      sweep table data start' {} = .ok found' ∧
      List.Forall₂ (Moved (start' - start)) found found' := by
  obtain ⟨found, hsweep, hrun⟩ := sweep_run ht data start
  obtain ⟨found', hrun', hmoved⟩ := hrun.moved rfl
  exact ⟨found, found', hsweep, hrun'.sweep_eq ht none, hmoved⟩

/-- A branch to itself, from below the address space and from above it. -/
theorem sweep_moved_branch :
    ∃ table found found', (DenseTable.build .refuse Sample.branchOnly).result = .ok table ∧
      table.Adequate ∧
      sweep table #[0xD0, 0xFE, 0xEA, 0xD0] (-1) {} = .ok found ∧
      found.map Instruction.operand = ["$FFFF", "", "???"] ∧
      sweep table #[0xD0, 0xFE, 0xEA, 0xD0] 0x10000 {} = .ok found' ∧
      found'.map Instruction.operand = ["$0000", "", "???"] ∧
      List.Forall₂ (Moved (0x10000 - -1)) found found' := by
  obtain ⟨table, htable, hparsed⟩ := Sample.exists_branch
  obtain ⟨found, found', hsweep, hsweep', hmoved⟩ :=
    sweep_moved hparsed.adequate #[0xD0, 0xFE, 0xEA, 0xD0] (-1) 0x10000
  have hoperands (start : Int) (operands : List String)
      (h : ((DenseTable.build .refuse Sample.branchOnly).result.bind fun table =>
        (sweep table #[0xD0, 0xFE, 0xEA, 0xD0] start {}).map (List.map Instruction.operand)) =
          .ok operands) (found : List Instruction)
      (hfound : sweep table #[0xD0, 0xFE, 0xEA, 0xD0] start {} = .ok found) :
      found.map Instruction.operand = operands := by
    rw [htable] at h
    simpa only [Except.bind, hfound, Except.map, Except.ok.injEq] using h
  exact ⟨table, found, found', htable, hparsed.adequate, hsweep,
    hoperands _ _ (by decide +kernel) _ hsweep, hsweep',
    hoperands _ _ (by decide +kernel) _ hsweep', hmoved⟩

end Sweep

end Cpu6502
