import Cpu6502.Proofs.DenseRows
import Cpu6502.Proofs.SweepRun

namespace Cpu6502

/-- Records that take at least their opcodes make rows that do. -/
theorem DenseTable.advancing_of_build {mnemonics : Mnemonics} {policy : RepeatPolicy}
    {records : List Record} {table : DenseTable}
    (h : (buildWith mnemonics policy records).result = .ok table)
    (hlength : ∀ r ∈ records, 1 ≤ r.length) : table.Advancing := by
  intro opcode
  rw [(row_declared h opcode).record_eq]
  cases hlast : OpcodeIndex.last? records opcode.toNat with
  | none => exact Int.le_refl 1
  | some r =>
    obtain ⟨before, after, rfl, _⟩ := OpcodeIndex.last?_eq_some_iff.mp hlast
    exact hlength r (by simp)

namespace Sweep

open Decode Position

/-- The positions that are come to by going on from each byte by the length of its row. -/
inductive Reaches (table : DenseTable) (data : Array UInt8) : Nat → Nat → Prop where
  | refl (p : Nat) : Reaches table data p p
  | step {p q : Nat} {opcode : UInt8} (byte : data[p]? = some opcode)
      (rest : Reaches table data (p + (table.row opcode).record.length.toNat) q) :
      Reaches table data p q

/-- The buffer has room for the row of the byte at a position, the row has none for its operand. -/
def ShortAt (table : DenseTable) (data : Array UInt8) (p : Nat) : Prop :=
  ∃ opcode, data[p]? = some opcode ∧ p + (table.row opcode).record.length ≤ data.size ∧
    (table.row opcode).record.length < (table.row opcode).record.mode.length

variable {table : DenseTable} {data : Array UInt8}

theorem Reaches.le {p q : Nat} (h : Reaches table data p q) : p ≤ q := by
  induction h with
  | refl p => exact Nat.le_refl p
  | step _ _ ih => omega

theorem ShortAt.lt {p : Nat} (h : ShortAt table data p) : p < data.size := by
  obtain ⟨opcode, hd, _⟩ := h
  exact (Array.getElem?_eq_some_iff.mp hd).1

/-- What is left behind an instruction is left by the length of its row, even if that is cut off. -/
theorem drop_first {address : Int} {opcode : UInt8} {rest : List UInt8} {i : Instruction}
    (hpos : 1 ≤ (table.row opcode).record.length)
    (h : first table address opcode rest = .ok i) :
    (opcode :: rest).drop i.rawBytes.length =
      (opcode :: rest).drop (table.row opcode).record.length.toNat := by
  rcases first_cases h with ⟨hcut, rfl⟩ | ⟨hroom, _, _, rfl⟩
  · simp only [incomplete, List.drop_length]
    rw [List.drop_eq_nil_of_le (by simp only [List.length_cons]; omega)]
  · simp only [complete, List.length_cons, List.length_take]
    congr 1
    omega

theorem first_error_iff_short {address : Int} {p : Nat} {opcode : UInt8} {fault : Fault}
    (hpos : 1 ≤ (table.row opcode).record.length) (hd : data[p]? = some opcode) :
    first table address opcode (data.toList.drop (p + 1)) = .error fault ↔
      ShortAt table data p ∧ fault = .noSuchPosition (table.row opcode).record.length := by
  have hlt := (Array.getElem?_eq_some_iff.mp hd).1
  have hlen : (data.toList.drop (p + 1)).length + 1 = data.size - p := by
    rw [List.length_drop, Array.length_toList]
    omega
  have hroom : (table.row opcode).record.length ≤ (data.toList.drop (p + 1)).length + 1 ↔
      p + (table.row opcode).record.length ≤ data.size := by omega
  rw [first_error_iff hpos, hroom, ← and_assoc]
  refine and_congr_left fun _ => ⟨fun h => ⟨opcode, hd, h⟩, ?_⟩
  rintro ⟨opcode', hd', h⟩
  obtain rfl := Option.some.inj (hd.symm.trans hd')
  exact h

theorem exists_first {p : Nat} {opcode : UInt8} (hpos : 1 ≤ (table.row opcode).record.length)
    (hd : data[p]? = some opcode) (h : ¬ ShortAt table data p) (address : Int) :
    ∃ i, first table address opcode (data.toList.drop (p + 1)) = .ok i := by
  cases hfirst : first table address opcode (data.toList.drop (p + 1)) with
  | ok i => exact ⟨i, rfl⟩
  | error fault => exact absurd ((first_error_iff_short hpos hd).mp hfirst).1 h

/-- A buffer has a run from a position on if no short row is come to from there. -/
theorem exists_run_of_not_short (hadvance : table.Advancing) {p : Nat}
    (h : ∀ q, Reaches table data p q → ¬ ShortAt table data q) (address : Int) :
    ∃ found, Run table address (data.toList.drop p) found := by
  refine exists_run_of_safe hadvance
    (fun bytes => ∃ p, bytes = data.toList.drop p ∧
      ∀ q, Reaches table data p q → ¬ ShortAt table data q) ?_ ⟨p, rfl, h⟩ address
  rintro opcode rest ⟨p, hbytes, hclear⟩ address
  have hd : data[p]? = some opcode := by
    rw [← Array.getElem?_toList, ← List.head?_drop, ← hbytes, List.head?_cons]
  obtain rfl : rest = data.toList.drop (p + 1) := by
    rw [drop_of_getElem? hd, List.cons.injEq] at hbytes
    exact hbytes.2
  have hpos := hadvance opcode
  obtain ⟨i, hi⟩ := exists_first hpos hd (hclear p (.refl p)) address
  refine ⟨i, hi, p + (table.row opcode).record.length.toNat, ?_, fun q hq => hclear q (.step hd hq)⟩
  rw [drop_first hpos hi, hbytes, List.drop_drop]

theorem size_of_room {address : Int} {opcode : UInt8} {rest : List UInt8} {i : Instruction}
    (h : first table address opcode rest = .ok i)
    (hroom : (table.row opcode).record.length ≤ rest.length + 1) :
    i.size = (table.row opcode).record.length := by
  rcases first_cases h with ⟨hcut, rfl⟩ | ⟨_, _, _, rfl⟩
  · omega
  · rfl

/-- The loop fails where it comes to a short row, given more steps than bytes are left. -/
theorem sweepFrom_short (hadvance : table.Advancing) {p q : Nat} (h : Reaches table data p q)
    (hshort : ShortAt table data q) {steps : Nat} (hsteps : data.size - p < steps) (address : Int)
    (before : List Instruction) :
    ∃ position, sweepFrom table data none steps none p address before =
      .error (.noSuchPosition position) := by
  obtain ⟨steps, rfl⟩ : ∃ n, steps = n + 1 := ⟨steps - 1, by omega⟩
  have hnolimit (p : Nat) : ¬ Option.any (· ≤ (p : Int)) none := nofun
  have hnocount : (none : Option Nat) ≠ some 0 := nofun
  induction h generalizing steps address before with
  | refl p =>
    obtain ⟨opcode, hd, _⟩ := id hshort
    have hpos := hadvance opcode
    have hfirst : first table address opcode (data.toList.drop (p + 1)) =
        .error (.noSuchPosition (table.row opcode).record.length) :=
      (first_error_iff_short hpos hd).mpr ⟨hshort, rfl⟩
    rw [sweepFrom_step (drop_of_getElem? hd) hpos (hnolimit p) hnocount, hfirst]
    exact ⟨_, rfl⟩
  | @step p q opcode hd hrest ih =>
    have hpos := hadvance opcode
    have hq := hrest.le
    have hend := hshort.lt
    rw [sweepFrom_step (drop_of_getElem? hd) hpos (hnolimit p) hnocount]
    cases hfirst : first table address opcode (data.toList.drop (p + 1)) with
    | error fault =>
      obtain ⟨_, rfl⟩ := (first_error_iff_short hpos hd).mp hfirst
      exact ⟨_, rfl⟩
    | ok i =>
      obtain ⟨steps, rfl⟩ : ∃ n, steps = n + 1 := ⟨steps - 1, by omega⟩
      have hsize := size_of_room hfirst (by rw [List.length_drop, Array.length_toList]; omega)
      obtain ⟨position, hlater⟩ := ih hshort (next i) (i :: before) steps (by omega)
      have hnext : ((p + (table.row opcode).record.length.toNat : Nat) : Int) = p + i.size := by
        omega
      rw [hnext] at hlater
      exact ⟨position, hlater⟩

/-- A sweep fails exactly if it comes to a short row that the buffer has room for. -/
theorem sweep_fails_iff (hadvance : table.Advancing) (data : Array UInt8) (start : Int) :
    ((∃ position, sweep table data start {} = .error (.noSuchPosition position)) ↔
      ∃ p, Reaches table data 0 p ∧ ShortAt table data p) ∧
    ((∃ found, sweep table data start {} = .ok found) ↔
      ¬ ∃ p, Reaches table data 0 p ∧ ShortAt table data p) ∧
    ∀ (p : Nat) (opcode : UInt8) (address : Int), data[p]? = some opcode →
      (data.size < p + (table.row opcode).record.length ∨
        (table.row opcode).record.mode = .implied ∨
        (table.row opcode).record.mode = .accumulator) →
      ∃ i, instructionAt table data address p = .ok i := by
  have hfails : (∃ p, Reaches table data 0 p ∧ ShortAt table data p) →
      ∃ position, sweep table data start {} = .error (.noSuchPosition position) := by
    rintro ⟨p, hreaches, hshort⟩
    exact sweepFrom_short hadvance hreaches hshort (by simp only [stepBound]; omega) start []
  have hends : (¬ ∃ p, Reaches table data 0 p ∧ ShortAt table data p) →
      ∃ found, sweep table data start {} = .ok found := by
    intro hnone
    obtain ⟨found, hrun⟩ := exists_run_of_not_short hadvance
      (fun q hreaches hshort => hnone ⟨q, hreaches, hshort⟩) start
    exact ⟨_, Run.sweep_limits hadvance hrun {}⟩
  refine ⟨⟨?_, hfails⟩, ⟨?_, hends⟩, ?_⟩
  · rintro ⟨position, hposition⟩
    by_contra hnone
    obtain ⟨found, hfound⟩ := hends hnone
    cases hposition.symm.trans hfound
  · rintro ⟨found, hfound⟩ hshort
    obtain ⟨position, hposition⟩ := hfails hshort
    cases hposition.symm.trans hfound
  · intro p opcode address hd hsafe
    have hpos := hadvance opcode
    rw [instructionAt_eq_first (drop_of_getElem? hd) hpos]
    refine exists_first hpos hd ?_ address
    rintro ⟨opcode', hd', hroom, hshort⟩
    obtain rfl := Option.some.inj (hd.symm.trans hd')
    rcases hsafe with hcut | hmode | hmode
    · omega
    all_goals
      rw [hmode] at hshort
      simp only [Mode.length, Mode.operandSize] at hshort
      omega

/-- A row without its operand behind a byte without a row, and a row that lacks half of its operand
in front of the end of the buffer. -/
theorem sweep_fails_iff_load :
    let load : Record := { Sample.load with length := 1 }
    let jump : Record := { Sample.jump with length := 2 }
    ∃ table, (DenseTable.build .refuse [load, jump]).result = .ok table ∧ table.Advancing ∧
      Reaches table #[0xEA, 0xA9, 0x10] 0 1 ∧ ShortAt table #[0xEA, 0xA9, 0x10] 1 ∧
      (∃ position, sweep table #[0xEA, 0xA9, 0x10] 0 {} = .error (.noSuchPosition position)) ∧
      (table.row 0x4C).record.length < (table.row 0x4C).record.mode.length ∧
      ∃ i, instructionAt table #[0xEA, 0x4C] 0xC001 1 = .ok i := by
  intro load jump
  obtain ⟨table, htable⟩ : ∃ table, (DenseTable.build .refuse [load, jump]).result = .ok table :=
    DenseTable.build_ok_iff.mpr (by decide)
  have hadvance : table.Advancing := DenseTable.advancing_of_build htable (by simp [load, jump])
  have hunknown : (table.row 0xEA).record = .unknown 0xEA :=
    (DenseTable.row_declared htable 0xEA).record_eq.trans rfl
  have hload : (table.row 0xA9).record = load :=
    (DenseTable.row_declared htable 0xA9).record_eq.trans rfl
  have hjump : (table.row 0x4C).record = jump :=
    (DenseTable.row_declared htable 0x4C).record_eq.trans rfl
  have hreaches : Reaches table #[0xEA, 0xA9, 0x10] 0 1 := by
    refine .step (show #[0xEA, 0xA9, 0x10][0]? = some 0xEA from rfl) ?_
    rw [hunknown]
    exact .refl 1
  have hshort : ShortAt table #[0xEA, 0xA9, 0x10] 1 := ⟨0xA9, rfl, by rw [hload]; decide⟩
  obtain ⟨hfails, _, _⟩ := sweep_fails_iff hadvance #[0xEA, 0xA9, 0x10] 0
  obtain ⟨_, _, hsafe⟩ := sweep_fails_iff hadvance #[0xEA, 0x4C] 0xC000
  exact ⟨table, htable, hadvance, hreaches, hshort, hfails.mpr ⟨1, hreaches, hshort⟩,
    by rw [hjump]; decide, hsafe 1 0x4C 0xC001 rfl (.inl (by rw [hjump]; decide))⟩

end Sweep

end Cpu6502
