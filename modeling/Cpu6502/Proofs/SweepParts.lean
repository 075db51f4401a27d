import Cpu6502.Proofs.SweepLossless

namespace Cpu6502.Sweep

open Decode

/-- What follows some instructions of a run is the run of the bytes that they leave. -/
theorem Run.behind {table : DenseTable} (ht : table.Adequate) {address : Int} {bytes : List UInt8}
    {before after : List Instruction} (h : Run table address bytes (before ++ after)) :
    Run table (addressAfter address before) (bytes.drop (totalSize before).toNat) after := by
  obtain ⟨later, hlater, hlen⟩ := h.suffix ht
  have hbytes : before.flatMap Instruction.rawBytes ++ later = bytes := by
    rw [← h.bytes ht, List.flatMap_append, hlater.bytes ht]
  have hsize : (before.flatMap Instruction.rawBytes).length = (totalSize before).toNat := by
    have := congrArg List.length hbytes
    rw [List.length_append] at this
    omega
  rwa [← hbytes, List.drop_left' hsize]

/-- On the 16 bits of the bus, the address after some instructions is their size further on. -/
theorem addressAfter_eq {start : Int} (hstart : 0 ≤ start ∧ start ≤ 0xFFFF)
    (before : List Instruction) :
    addressAfter start before = (start + totalSize before) % 65536 := by
  unfold addressAfter
  split
  · rename_i hnone
    subst hnone
    simp only [totalSize]
    omega
  · rfl

theorem totalSize_eq {table : DenseTable} (ht : table.Adequate) {address : Int}
    {bytes : List UInt8} {found : List Instruction} (h : Run table address bytes found) :
    totalSize found = bytes.length := by
  obtain ⟨later, hlater, hlen⟩ := Run.suffix ht ((List.append_nil found).symm ▸ h)
  have hnone := hlater.bytes ht
  rw [List.flatMap_nil] at hnone
  subst hnone
  simp only [List.length_nil] at hlen
  omega

theorem upTo_add (a : Nat) (remaining : Option Nat) (found : List Instruction) :
    upTo (remaining.map (a + ·)) found = found.take a ++ upTo remaining (found.drop a) := by
  cases remaining with
  | none => exact (List.take_append_drop a found).symm
  | some b => exact List.take_add

/-- A whole instruction is decoded without a look at the bytes behind it. -/
theorem first_append {table : DenseTable} {address : Int} {opcode : UInt8} {rest : List UInt8}
    {i : Instruction} (h : first table address opcode rest = .ok i) (hwhole : ¬ i.Incomplete)
    (more : List UInt8) : first table address opcode (rest ++ more) = .ok i := by
  rcases first_cases h with ⟨_, rfl⟩ | ⟨hroom, operand, hoperand, rfl⟩
  · exact absurd ⟨rfl, rfl, rfl⟩ hwhole
  · have hlonger : (table.row opcode).record.length ≤ (rest ++ more).length + 1 := by
      rw [List.length_append]
      omega
    have htake : (rest ++ more).take ((table.row opcode).record.length.toNat - 1) =
        rest.take ((table.row opcode).record.length.toNat - 1) :=
      List.take_append_of_le_length (by omega)
    rw [← htake] at hoperand ⊢
    exact first_of_operand hlonger hoperand

/-- The run of some bytes goes on with the run of the bytes behind them, if none of its instructions
is cut off. -/
theorem Run.append {table : DenseTable} (ht : table.Adequate) {address : Int}
    {bytes more : List UInt8} {found later : List Instruction} (h : Run table address bytes found)
    (hwhole : ∀ i ∈ found, ¬ i.Incomplete)
    (hlater : Run table (addressAfter address found) more later) :
    Run table address (bytes ++ more) (found ++ later) := by
  induction h with
  | nil => simpa [addressAfter] using hlater
  | @cons address opcode rest i found head _ ih =>
    obtain ⟨hi, hfound⟩ := List.forall_mem_cons.mp hwhole
    have hreads := first_reads (ht.length_pos opcode) head
    rw [← hreads.address_eq, addressAfter_cons] at hlater
    have hdrop : (opcode :: (rest ++ more)).drop i.rawBytes.length =
        (opcode :: rest).drop i.rawBytes.length ++ more :=
      List.drop_append_of_le_length hreads.raw_start.length_le
    exact .cons (first_append head hi more) (hdrop ▸ ih hfound hlater)

/-- Decoding in chunks is decoding at once. A sweep can be cut behind any number of its instructions
and resumed where they end, and a buffer of whole instructions can be continued. -/
theorem sweep_resumes {table : DenseTable} (ht : table.Adequate) {start : Int}
    (hstart : 0 ≤ start ∧ start ≤ 0xFFFF) :
    (∀ (data : Array UInt8) (a : Nat), ∃ found,
      sweep table data start { count := some a } = .ok found ∧
      ∀ b : Option Nat, ∃ later,
        sweep table (data.extract (totalSize found).toNat) ((start + totalSize found) % 65536)
          { count := b.map fun n : Nat => (n : Int) } = .ok later ∧
        sweep table data start { count := b.map fun n : Nat => (a + n : Int) } =
          .ok (found ++ later)) ∧
    ∀ (data more : Array UInt8) (found : List Instruction),
      sweep table data start {} = .ok found → (∀ i ∈ found, ¬ i.Incomplete) →
      ∃ later, sweep table more ((start + data.size) % 65536) {} = .ok later ∧
        sweep table (data ++ more) start {} = .ok (found ++ later) := by
  constructor
  · intro data a
    obtain ⟨run, hrun, _⟩ := exists_run ht data.toList start
    refine ⟨run.take a, by simpa [upTo] using hrun.sweep_eq ht (some a), ?_⟩
    intro b
    have hrest := Run.behind ht ((List.take_append_drop a run).symm ▸ hrun)
    rw [addressAfter_eq hstart] at hrest
    have hchunk : (data.extract (totalSize (run.take a)).toNat).toList =
        data.toList.drop (totalSize (run.take a)).toNat := by
      rw [Array.toList_extract, List.extract_eq_drop_take', ← Array.length_toList,
        List.take_length]
    rw [← hchunk] at hrest
    refine ⟨upTo b (run.drop a), ?_, ?_⟩
    · rw [hrest.sweep_eq ht]
      cases b <;> rfl
    · rw [hrun.sweep_eq ht, ← upTo_add]
      cases b <;> rfl
  · intro data more found hsweep hwhole
    obtain ⟨run, hfound, hrun⟩ := sweep_run ht data start
    obtain rfl : run = found := Except.ok.inj (hfound.symm.trans hsweep)
    obtain ⟨later, hlater, hrest⟩ := sweep_run ht more ((start + data.size) % 65536)
    refine ⟨later, hlater, ?_⟩
    have hjoined : Run table start (data ++ more).toList (run ++ later) := by
      rw [Array.toList_append]
      refine hrun.append ht hwhole ?_
      rwa [addressAfter_eq hstart, totalSize_eq ht hrun, Array.length_toList]
    exact hjoined.sweep_eq ht none

/-- A branch at the end of the address space, before a byte without an instruction and a branch that
is cut off. -/
theorem sweep_resumes_wrapped :
    let i : Instruction :=
      { address := 0xFFFF, opcode := 0xD0, mnemonic := "BNE", mode := .relative
        operandBytes := [0xFE], operand := "$FFFF", size := 2, rawBytes := [0xD0, 0xFE]
        comment := "-2" }
    ∃ table, (DenseTable.build .refuse Sample.branchOnly).result = .ok table ∧ table.Adequate ∧
      sweep table #[0xD0, 0xFE, 0xEA, 0xD0] 0xFFFF { count := some 1 } = .ok [i] ∧
      sweep table #[0xD0, 0xFE] 0xFFFF {} = .ok [i] ∧ ¬ i.Incomplete ∧
      (∃ later, sweep table #[0xEA, 0xD0] 1 { count := some 1 } = .ok later ∧
        sweep table #[0xD0, 0xFE, 0xEA, 0xD0] 0xFFFF { count := some 2 } = .ok (i :: later)) ∧
      ∃ later, sweep table #[0xEA, 0xD0] 1 {} = .ok later ∧
        sweep table #[0xD0, 0xFE, 0xEA, 0xD0] 0xFFFF {} = .ok (i :: later) := by
  intro i
  obtain ⟨table, htable, hparsed⟩ := Sample.exists_branch
  have hsweeps : ((DenseTable.build .refuse Sample.branchOnly).result.bind fun table =>
        sweep table #[0xD0, 0xFE, 0xEA, 0xD0] 0xFFFF { count := some 1 }) = .ok [i] ∧
      ((DenseTable.build .refuse Sample.branchOnly).result.bind fun table =>
        sweep table #[0xD0, 0xFE] 0xFFFF {}) = .ok [i] := by decide +kernel
  rw [htable] at hsweeps
  obtain ⟨hchunks, hwhole⟩ :=
    sweep_resumes hparsed.adequate (show 0 ≤ 0xFFFF ∧ 0xFFFF ≤ 0xFFFF by omega)
  obtain ⟨found, hfound, hcut⟩ := hchunks #[0xD0, 0xFE, 0xEA, 0xD0] 1
  obtain rfl : found = [i] := Except.ok.inj (hfound.symm.trans hsweeps.1)
  have hi : ¬ i.Incomplete := fun h => absurd h.1 (by decide)
  exact ⟨table, htable, hparsed.adequate, hsweeps.1, hsweeps.2, hi, hcut (some 1),
    hwhole #[0xD0, 0xFE] #[0xEA, 0xD0] [i] hsweeps.2 (by simpa using hi)⟩

end Cpu6502.Sweep
