import Cpu6502.Proofs.FirstInstruction
import Cpu6502.Sweep

namespace Cpu6502.Sweep

open Decode

/-- Decoding some bytes from an address on finds these instructions. -/
inductive Run (table : DenseTable) : Int → List UInt8 → List Instruction → Prop where
  | nil (address : Int) : Run table address [] []
  | cons {address : Int} {opcode : UInt8} {rest : List UInt8} {i : Instruction}
      {found : List Instruction} (head : first table address opcode rest = .ok i)
      (tail : Run table (next i) ((opcode :: rest).drop i.rawBytes.length) found) :
      Run table address (opcode :: rest) (i :: found)

/-- What an instruction has in common with the bytes that it was decoded from. -/
structure Reads (bytes : List UInt8) (address : Int) (i : Instruction) : Prop where
  address_eq : i.address = address
  raw_start : i.rawBytes <+: bytes
  size_eq : i.size = i.rawBytes.length
  opcode_eq : ∃ opcode rest, i.rawBytes = opcode :: rest ∧ i.opcode = opcode.toNat

theorem first_reads {table : DenseTable} {address : Int} {opcode : UInt8} {rest : List UInt8}
    {i : Instruction} (hpos : 1 ≤ (table.row opcode).record.length)
    (h : first table address opcode rest = .ok i) : Reads (opcode :: rest) address i := by
  rcases first_cases h with ⟨_, rfl⟩ | ⟨hroom, operand, _, rfl⟩
  · exact ⟨rfl, List.prefix_refl _, rfl, opcode, rest, rfl, rfl⟩
  · refine ⟨rfl, ?_, ?_, opcode, _, rfl, rfl⟩
    · exact List.cons_prefix_cons.mpr ⟨rfl, List.take_prefix _ _⟩
    · simp only [complete, List.length_cons, List.length_take]
      omega

theorem Reads.rawBytes_pos {bytes : List UInt8} {address : Int} {i : Instruction}
    (h : Reads bytes address i) : 1 ≤ i.rawBytes.length := by
  obtain ⟨opcode, rest, hraw, _⟩ := h.opcode_eq
  simp [hraw]

theorem Run.length_le {table : DenseTable} (hadvance : table.Advancing) {address : Int}
    {bytes : List UInt8} {found : List Instruction} (h : Run table address bytes found) :
    found.length ≤ bytes.length := by
  induction h with
  | nil => exact Nat.le_refl 0
  | @cons address opcode rest i found head _ ih =>
    have hpos := (first_reads (hadvance opcode) head).rawBytes_pos
    simp only [List.length_drop, List.length_cons] at ih ⊢
    omega

/-- Bytes have a run if their first instruction can be decoded and what it leaves is safe again. -/
theorem exists_run_of_safe {table : DenseTable} (hadvance : table.Advancing)
    (Safe : List UInt8 → Prop)
    (hsafe : ∀ opcode rest, Safe (opcode :: rest) → ∀ address, ∃ i,
      first table address opcode rest = .ok i ∧ Safe ((opcode :: rest).drop i.rawBytes.length))
    {bytes : List UInt8} (hbytes : Safe bytes) (address : Int) :
    ∃ found, Run table address bytes found := by
  generalize hn : bytes.length = n
  induction n using Nat.strongRecOn generalizing bytes address with
  | ind n ih =>
    cases bytes with
    | nil => exact ⟨[], .nil address⟩
    | cons opcode rest =>
      obtain ⟨i, hi, hlater⟩ := hsafe opcode rest hbytes address
      have hpos := (first_reads (hadvance opcode) hi).rawBytes_pos
      simp only [List.length_cons] at hn
      obtain ⟨found, hrun⟩ := ih _ (by simp; omega) hlater (next i) rfl
      exact ⟨i :: found, .cons hi hrun⟩

/-- With adequate rows every sequence of bytes has a run, of at most as many steps as bytes. -/
theorem exists_run {table : DenseTable} (ht : table.Adequate) (bytes : List UInt8) (address : Int) :
    ∃ found, Run table address bytes found ∧ found.length ≤ bytes.length := by
  obtain ⟨found, hrun⟩ : ∃ found, Run table address bytes found := by
    refine exists_run_of_safe ht.length_pos (fun _ => True) ?_ trivial address
    intro opcode rest _ address
    simpa using first_ok ht address opcode rest
  exact ⟨found, hrun, hrun.length_le ht.length_pos⟩

/-- What a limit on the number of instructions leaves of them. -/
def upTo : Option Nat → List Instruction → List Instruction
  | none, found => found
  | some n, found => found.take n

theorem upTo_cons {remaining : Option Nat} (h : remaining ≠ some 0) (i : Instruction)
    (found : List Instruction) :
    upTo remaining (i :: found) = i :: upTo (remaining.map (· - 1)) found := by
  cases remaining with
  | none => rfl
  | some n =>
    cases n with
    | zero => exact absurd rfl h
    | succ n => rfl

/-- Of instructions that stand from a position on, those that start below a limit on the bytes. -/
def startingBelow (maxBytes : Option Int) : (position : Int) → List Instruction → List Instruction
  | _, [] => []
  | position, i :: rest =>
    if maxBytes.any (· ≤ position) then []
    else i :: startingBelow maxBytes (position + i.size) rest

@[simp] theorem startingBelow_none (position : Int) (found : List Instruction) :
    startingBelow none position found = found := by
  induction found generalizing position with
  | nil => rfl
  | cons i rest ih => simp [startingBelow, ih]

theorem isPrefix_startingBelow (maxBytes : Option Int) (position : Int) (found : List Instruction) :
    startingBelow maxBytes position found <+: found := by
  induction found generalizing position with
  | nil => exact List.prefix_refl []
  | cons i rest ih =>
    unfold startingBelow
    split
    · exact List.nil_prefix
    · exact List.cons_prefix_cons.mpr ⟨rfl, ih _⟩

/-- What the limits leave of the instructions of a buffer. -/
def Limits.cut (limits : Limits) (found : List Instruction) : List Instruction :=
  upTo (limits.count.map Int.toNat) (startingBelow limits.maxBytes 0 found)

/-- A step of the loop, where neither the buffer nor a limit ends it. -/
theorem sweepFrom_step {table : DenseTable} {data : Array UInt8} {p : Nat} {opcode : UInt8}
    {rest : List UInt8} (hd : data.toList.drop p = opcode :: rest)
    (hpos : 1 ≤ (table.row opcode).record.length) {maxBytes : Option Int}
    (hlimit : ¬ maxBytes.any (· ≤ (p : Int))) {remaining : Option Nat}
    (hremaining : remaining ≠ some 0) (steps : Nat) (address : Int) (before : List Instruction) :
    sweepFrom table data maxBytes (steps + 1) remaining p address before =
      (first table address opcode rest).bind fun i =>
        sweepFrom table data maxBytes steps (remaining.map (· - 1)) (p + i.size) (next i)
          (i :: before) := by
  have hroom : ¬ (data.size : Int) ≤ p := by
    have := congrArg List.length hd
    simp only [List.length_drop, Array.length_toList, List.length_cons] at this
    omega
  rw [sweepFrom, if_neg (by simp [hroom, hremaining, hlimit]), instructionAt_eq_first hd hpos]
  cases first table address opcode rest <;> rfl

/-- The loop finds the run of the bytes from its position on as far as it may, given a step more
than instructions. -/
theorem sweepFrom_run {table : DenseTable} {data : Array UInt8} (hadvance : table.Advancing)
    {address : Int} {found : List Instruction} (p : Nat)
    (hrun : Run table address (data.toList.drop p) found) (maxBytes : Option Int)
    (remaining : Option Nat) (steps : Nat)
    (hsteps : (upTo remaining (startingBelow maxBytes p found)).length < steps)
    (before : List Instruction) :
    sweepFrom table data maxBytes steps remaining p address before =
      .ok (before.reverse ++ upTo remaining (startingBelow maxBytes p found)) := by
  generalize hb : data.toList.drop p = bytes at hrun
  induction hrun generalizing p remaining steps before with
  | nil address =>
    obtain ⟨steps, rfl⟩ : ∃ n, steps = n + 1 := ⟨steps - 1, by omega⟩
    have hend : (data.size : Int) ≤ p := by
      have := List.drop_eq_nil_iff.mp hb
      rw [Array.length_toList] at this
      exact_mod_cast this
    cases remaining <;> simp [sweepFrom, startingBelow, upTo, hend]
  | @cons address opcode rest i found hi _ ih =>
    obtain ⟨steps, rfl⟩ : ∃ n, steps = n + 1 := ⟨steps - 1, by omega⟩
    by_cases hremaining : remaining = some 0
    · subst hremaining
      simp [sweepFrom, upTo]
    · by_cases hlimit : maxBytes.any (· ≤ (p : Int))
      · cases remaining <;> simp [sweepFrom, startingBelow, upTo, hlimit]
      · have hreads := first_reads (hadvance opcode) hi
        have hnext : data.toList.drop (p + i.rawBytes.length) =
            (opcode :: rest).drop i.rawBytes.length := by
          rw [← hb, List.drop_drop]
        have hposition : ((p + i.rawBytes.length : Nat) : Int) = p + i.size := by
          rw [Int.natCast_add, hreads.size_eq]
        rw [startingBelow, if_neg hlimit, upTo_cons hremaining] at hsteps ⊢
        have hlater := ih (p + i.rawBytes.length) (remaining.map (· - 1)) steps
          (by rw [hposition]; simpa using hsteps) (i :: before) hnext
        rw [hposition] at hlater
        rw [sweepFrom_step hb (hadvance opcode) hlimit hremaining, hi, Except.bind, hlater]
        simp

/-- The bound on the steps of a sweep is never met, and limits only cut the run of the buffer. -/
theorem Run.sweep_limits {table : DenseTable} (hadvance : table.Advancing) {data : Array UInt8}
    {start : Int} {found : List Instruction} (h : Run table start data.toList found)
    (limits : Limits) : sweep table data start limits = .ok (limits.cut found) := by
  have hlen : (startingBelow limits.maxBytes 0 found).length ≤ data.size := by
    rw [← Array.length_toList]
    exact Nat.le_trans (isPrefix_startingBelow _ _ _).length_le (h.length_le hadvance)
  have hsteps : (limits.cut found).length < stepBound data.size limits.count := by
    unfold Limits.cut
    cases limits.count with
    | none =>
      simp only [Option.map_none, upTo, stepBound]
      omega
    | some n =>
      simp only [Option.map_some, upTo, stepBound, List.length_take]
      omega
  exact sweepFrom_run hadvance 0 (by simpa using h) _ _ _ hsteps []

/-- A sweep finds the run of its buffer as far as its count goes. -/
theorem Run.sweep_eq {table : DenseTable} (ht : table.Adequate) {data : Array UInt8} {start : Int}
    {found : List Instruction} (h : Run table start data.toList found) (count : Option Int) :
    sweep table data start { count := count } = .ok (upTo (count.map Int.toNat) found) := by
  simpa [Limits.cut] using h.sweep_limits ht.length_pos { count := count }

theorem sweep_count {table : DenseTable} (ht : table.Adequate) (data : Array UInt8) (start : Int) :
    ∃ found, Run table start data.toList found ∧ ∀ count : Option Int,
      sweep table data start { count := count } = .ok (upTo (count.map Int.toNat) found) := by
  obtain ⟨found, hrun, _⟩ := exists_run ht data.toList start
  exact ⟨found, hrun, hrun.sweep_eq ht⟩

theorem sweep_run {table : DenseTable} (ht : table.Adequate) (data : Array UInt8) (start : Int) :
    ∃ found, sweep table data start {} = .ok found ∧ Run table start data.toList found := by
  obtain ⟨found, hrun, hsweep⟩ := sweep_count ht data start
  exact ⟨found, hsweep none, hrun⟩

/-- The number of bytes of some instructions. -/
def totalSize : List Instruction → Int
  | [] => 0
  | i :: rest => i.size + totalSize rest

/-- The address after some instructions, of which the first stands at `start`. -/
def addressAfter (start : Int) (instructions : List Instruction) : Int :=
  if instructions = [] then start else (start + totalSize instructions) % 65536

theorem addressAfter_cons (i : Instruction) (before : List Instruction) :
    addressAfter i.address (i :: before) = addressAfter (next i) before := by
  cases before with
  | nil => simp [addressAfter, totalSize, next]
  | cons j before =>
    simp only [addressAfter, totalSize, next, reduceCtorEq, ↓reduceIte]
    omega

/-- No byte is dropped or read twice, whatever the bytes end with. -/
theorem Run.bytes {table : DenseTable} (ht : table.Adequate) {address : Int} {bytes : List UInt8}
    {found : List Instruction} (h : Run table address bytes found) :
    found.flatMap Instruction.rawBytes = bytes := by
  induction h with
  | nil => rfl
  | @cons address opcode rest i found hi _ ih =>
    obtain ⟨later, hbytes⟩ := (first_reads (ht.length_pos opcode) hi).raw_start
    rw [List.flatMap_cons, ih, ← hbytes, List.drop_left]

/-- A part of a run is the run of the bytes behind the instructions before it. -/
theorem Run.suffix {table : DenseTable} (ht : table.Adequate) {address : Int} {bytes : List UInt8}
    {before after : List Instruction} (h : Run table address bytes (before ++ after)) :
    ∃ later, Run table (addressAfter address before) later after ∧
      (later.length : Int) = bytes.length - totalSize before := by
  induction before generalizing address bytes with
  | nil => exact ⟨bytes, by simpa [addressAfter] using h, by simp [totalSize]⟩
  | cons i before ih =>
    cases h with
    | @cons _ opcode rest _ _ hi htail =>
      have hreads := first_reads (ht.length_pos opcode) hi
      obtain ⟨later, hrun, hlen⟩ := ih htail
      refine ⟨later, ?_, ?_⟩
      · rw [← hreads.address_eq, addressAfter_cons]
        exact hrun
      · have := hreads.raw_start.length_le
        have := hreads.size_eq
        simp only [List.length_drop] at hlen
        simp only [totalSize] at hlen ⊢
        omega

/-- Addresses stay on the 16 bits of the bus, where the sweep starts on it. -/
theorem Run.address_range {table : DenseTable} (ht : table.Adequate) {address : Int}
    {bytes : List UInt8} {found : List Instruction} (h : Run table address bytes found)
    (hstart : 0 ≤ address ∧ address < 65536) :
    ∀ i ∈ found, 0 ≤ i.address ∧ i.address < 65536 := by
  induction h with
  | nil => simp
  | @cons address opcode rest i found hi _ ih =>
    have hreads := first_reads (ht.length_pos opcode) hi
    refine List.forall_mem_cons.mpr ⟨by rwa [hreads.address_eq], ih ?_⟩
    unfold next
    omega

/-- Each instruction of a run is the first of some bytes. -/
theorem Run.mem_first {table : DenseTable} {address : Int} {bytes : List UInt8}
    {found : List Instruction} (h : Run table address bytes found) :
    ∀ i ∈ found, ∃ opcode rest, first table i.address opcode rest = .ok i := by
  induction h with
  | nil => simp
  | @cons address opcode rest i found hi _ ih =>
    have haddress : i.address = address := by
      rcases first_cases hi with ⟨_, rfl⟩ | ⟨_, _, _, rfl⟩ <;> rfl
    exact List.forall_mem_cons.mpr ⟨⟨opcode, rest, haddress ▸ hi⟩, ih⟩

theorem mem_of_mem_upTo {remaining : Option Nat} {found : List Instruction} {i : Instruction}
    (h : i ∈ upTo remaining found) : i ∈ found := by
  cases remaining with
  | none => exact h
  | some n => exact List.mem_of_mem_take h

end Cpu6502.Sweep
