import Cpu6502.Proofs.ParsedTable
import Cpu6502.Proofs.SweepRun

namespace Cpu6502.Sweep

open Decode

/-- How an instruction stands between the others in the sweep of a buffer of some size. -/
structure Placed (table : DenseTable) (size : Nat) (start : Int) (before : List Instruction)
    (i : Instruction) (after : List Instruction) (opcode : UInt8) : Prop where
  opcode_eq : i.opcode = opcode.toNat
  opcode_first : i.rawBytes.head? = some opcode
  size_eq : i.size = i.rawBytes.length
  size_pos : 1 ≤ i.size
  address_eq : i.address = addressAfter start before
  incomplete_iff : i.Incomplete ↔ size - totalSize before < (table.row opcode).record.length
  incomplete_last : i.Incomplete → after = []
  whole : ¬ i.Incomplete →
    i.size = (table.row opcode).record.length ∧ i.operandBytes = i.rawBytes.tail

theorem incomplete_iff_cut {table : DenseTable} {address : Int} {opcode : UInt8} {rest : List UInt8}
    {i : Instruction} (h : first table address opcode rest = .ok i) :
    i.Incomplete ↔ (rest.length : Int) + 1 < (table.row opcode).record.length := by
  rcases first_cases h with ⟨hcut, rfl⟩ | ⟨hroom, operand, hoperand, rfl⟩
  · exact ⟨fun _ => hcut, fun _ => ⟨rfl, rfl, rfl⟩⟩
  · constructor
    · intro hi
      exact absurd hi.1 (operand_ne_mark hoperand)
    · intro hcut
      omega

/-- An instruction that is cut off takes all the bytes there are. -/
theorem rawBytes_of_incomplete {table : DenseTable} {address : Int} {opcode : UInt8}
    {rest : List UInt8} {i : Instruction} (h : first table address opcode rest = .ok i)
    (hi : i.Incomplete) : i.rawBytes = opcode :: rest := by
  rcases first_cases h with ⟨_, rfl⟩ | ⟨_, operand, hoperand, rfl⟩
  · rfl
  · exact absurd hi.1 (operand_ne_mark hoperand)

theorem whole_of_complete {table : DenseTable} {address : Int} {opcode : UInt8} {rest : List UInt8}
    {i : Instruction} (h : first table address opcode rest = .ok i)
    (hi : ¬ i.Incomplete) :
    i.size = (table.row opcode).record.length ∧ i.operandBytes = i.rawBytes.tail := by
  rcases first_cases h with ⟨hcut, rfl⟩ | ⟨_, operand, _, rfl⟩
  · exact absurd ⟨rfl, rfl, rfl⟩ hi
  · exact ⟨rfl, rfl⟩

theorem Run.nil_of_nil {table : DenseTable} {address : Int} {found : List Instruction}
    (h : Run table address [] found) : found = [] := by
  cases h
  rfl

theorem Run.placed {table : DenseTable} (ht : table.Adequate) {size : Nat} {start : Int}
    {bytes : List UInt8} {before after : List Instruction} {i : Instruction}
    (h : Run table (addressAfter start before) bytes (i :: after))
    (hlen : (bytes.length : Int) = size - totalSize before) :
    ∃ opcode, Placed table size start before i after opcode := by
  cases h with
  | @cons _ opcode rest _ _ hi htail =>
    have hreads := first_reads (ht.length_pos opcode) hi
    obtain ⟨opcode', rest', hraw, hopcode⟩ := hreads.opcode_eq
    obtain rfl : opcode' = opcode := by
      have := hreads.raw_start
      rw [hraw] at this
      exact (List.cons_prefix_cons.mp this).1
    have hcut := incomplete_iff_cut hi
    simp only [List.length_cons, Int.natCast_add, Int.natCast_one] at hlen
    have hpos := hreads.rawBytes_pos
    refine ⟨opcode', hopcode, by rw [hraw, List.head?_cons], hreads.size_eq, ?_,
      hreads.address_eq, ?_, ?_, whole_of_complete hi⟩
    · rw [hreads.size_eq]
      omega
    · rw [hcut, ← hlen]
    · intro hincomplete
      rw [rawBytes_of_incomplete hi hincomplete, List.drop_length] at htail
      exact htail.nil_of_nil

/-- The sweep of any buffer ends, and loses nothing of it. -/
theorem lossless :
    (∀ table : DenseTable, table.Parsed → table.Adequate) ∧
    ∀ table : DenseTable, table.Adequate → ∀ (data : Array UInt8) (start : Int),
      ∃ found, sweep table data start {} = .ok found ∧
        found.flatMap Instruction.rawBytes = data.toList ∧
        ∀ before i after, found = before ++ i :: after →
          ∃ opcode, Placed table data.size start before i after opcode := by
  refine ⟨fun table h => h.adequate, ?_⟩
  intro table ht data start
  obtain ⟨found, hsweep, hrun⟩ := sweep_run ht data start
  refine ⟨found, hsweep, hrun.bytes ht, ?_⟩
  intro before i after he
  obtain ⟨later, hlater, hlen⟩ := Run.suffix ht (he ▸ hrun)
  exact hlater.placed ht (by simpa using hlen)

/-- A jump over the end of the address space, and one that the end of the buffer cuts off. -/
theorem lossless_jumps :
    ∃ table found, (DenseTable.build .refuse Sample.jumpOnly).result = .ok table ∧ table.Adequate ∧
      sweep table #[0x4C, 0x34, 0x12, 0xEA, 0x4C, 0x00] 65534 {} = .ok found ∧
      found.flatMap Instruction.rawBytes = [0x4C, 0x34, 0x12, 0xEA, 0x4C, 0x00] := by
  obtain ⟨table, htable, hparsed⟩ := Sample.exists_jump
  have hadequate := lossless.1 table hparsed
  obtain ⟨found, hsweep, hbytes, _⟩ :=
    lossless.2 table hadequate #[0x4C, 0x34, 0x12, 0xEA, 0x4C, 0x00] 65534
  exact ⟨table, found, htable, hadequate, hsweep, hbytes⟩

end Cpu6502.Sweep
