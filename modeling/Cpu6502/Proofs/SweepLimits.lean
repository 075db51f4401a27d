import Cpu6502.Proofs.ParsedTable
import Cpu6502.Proofs.SweepRun

namespace Cpu6502.Sweep

open Decode

theorem isPrefix_upTo (remaining : Option Nat) (found : List Instruction) :
    upTo remaining found <+: found := by
  cases remaining with
  | none => exact List.prefix_refl found
  | some n => exact List.take_prefix n found

theorem lt_length_upTo_iff {remaining : Option Nat} {found : List Instruction} {k : Nat} :
    k < (upTo remaining found).length ↔ k < found.length ∧ ∀ n, remaining = some n → k < n := by
  cases remaining with
  | none => simp [upTo]
  | some n =>
    simp only [upTo, List.length_take, Option.some.injEq, forall_eq']
    omega

theorem Run.size_pos {table : DenseTable} (hadvance : table.Advancing) {address : Int}
    {bytes : List UInt8} {found : List Instruction} (h : Run table address bytes found) :
    ∀ i ∈ found, 1 ≤ i.size := by
  intro i hi
  obtain ⟨opcode, rest, hfirst⟩ := h.mem_first i hi
  have hreads := first_reads (hadvance opcode) hfirst
  have := hreads.rawBytes_pos
  rw [hreads.size_eq]
  omega

theorem first_size_le {table : DenseTable} {address : Int} {opcode : UInt8} {rest : List UInt8}
    {i : Instruction} (h : first table address opcode rest = .ok i) :
    i.size ≤ (table.row opcode).record.length := by
  rcases first_cases h with ⟨hcut, rfl⟩ | ⟨_, _, _, rfl⟩
  · simp only [incomplete, List.length_cons]
    omega
  · exact Int.le_refl _

/-- With parsed records no instruction has more than three bytes. -/
theorem Run.size_le {table : DenseTable} (ht : table.Parsed) {address : Int} {bytes : List UInt8}
    {found : List Instruction} (h : Run table address bytes found) : ∀ i ∈ found, i.size ≤ 3 := by
  intro i hi
  obtain ⟨opcode, rest, hfirst⟩ := h.mem_first i hi
  have hsize := first_size_le hfirst
  have hmode := (table.row opcode).record.mode.length_le
  rw [(ht.row_sound opcode).regular.length_eq] at hsize
  omega

theorem totalSize_nonneg {found : List Instruction} (h : ∀ i ∈ found, 1 ≤ i.size) :
    0 ≤ totalSize found := by
  induction found with
  | nil => exact Int.le_refl 0
  | cons i rest ih =>
    obtain ⟨hi, hrest⟩ := List.forall_mem_cons.mp h
    have := ih hrest
    simp only [totalSize]
    omega

theorem totalSize_concat (before : List Instruction) (i : Instruction) :
    totalSize (before ++ [i]) = totalSize before + i.size := by
  induction before with
  | nil => simp [totalSize]
  | cons j before ih =>
    simp only [List.cons_append, totalSize, ih]
    omega

theorem startingBelow_cons {limit position : Int} (h : position < limit) (i : Instruction)
    (rest : List Instruction) :
    startingBelow (some limit) position (i :: rest) =
      i :: startingBelow (some limit) (position + i.size) rest := by
  simp [startingBelow, Int.not_le.mpr h]

theorem startingBelow_of_le {limit position : Int} (h : limit ≤ position)
    (found : List Instruction) : startingBelow (some limit) position found = [] := by
  cases found with
  | nil => rfl
  | cons i rest => simp [startingBelow, h]

/-- Sizes add up, so an instruction starts below the limit only if all before it do. -/
theorem lt_length_startingBelow_iff {found : List Instruction} (h : ∀ i ∈ found, 1 ≤ i.size)
    {limit : Int} (position : Int) {k : Nat} (hk : k < found.length) :
    k < (startingBelow (some limit) position found).length ↔
      position + totalSize (found.take k) < limit := by
  induction found generalizing position k with
  | nil => cases hk
  | cons i rest ih =>
    obtain ⟨hi, hrest⟩ := List.forall_mem_cons.mp h
    by_cases hlimit : position < limit
    · rw [startingBelow_cons hlimit]
      cases k with
      | zero => simpa [totalSize] using hlimit
      | succ k =>
        rw [List.length_cons, Nat.add_lt_add_iff_right,
          ih hrest (position + i.size) (Nat.lt_of_succ_lt_succ hk), List.take_succ_cons, totalSize]
        omega
    · have hbefore : 0 ≤ totalSize ((i :: rest).take k) :=
        totalSize_nonneg fun j hj => h j (List.mem_of_mem_take hj)
      rw [startingBelow_of_le (Int.not_lt.mp hlimit), List.length_nil]
      omega

theorem lt_length_cut_iff {found : List Instruction} (h : ∀ i ∈ found, 1 ≤ i.size)
    (limits : Limits) {k : Nat} (hk : k < found.length) :
    k < (limits.cut found).length ↔
      (∀ count, limits.count = some count → (k : Int) < count) ∧
        ∀ maxBytes, limits.maxBytes = some maxBytes → totalSize (found.take k) < maxBytes := by
  have hcount : (∀ n, limits.count.map Int.toNat = some n → k < n) ↔
      ∀ count, limits.count = some count → (k : Int) < count := by
    cases limits.count with
    | none => simp
    | some count =>
      simp only [Option.map_some, Option.some.injEq, forall_eq']
      omega
  have hbytes : k < (startingBelow limits.maxBytes 0 found).length ↔
      ∀ maxBytes, limits.maxBytes = some maxBytes → totalSize (found.take k) < maxBytes := by
    cases limits.maxBytes with
    | none => simpa using hk
    | some maxBytes =>
      rw [lt_length_startingBelow_iff h 0 hk, Int.zero_add]
      simp only [Option.some.injEq, forall_eq']
  rw [Limits.cut, lt_length_upTo_iff, hcount, hbytes]
  exact and_comm

/-- Limits cut a sweep off and change none of its instructions. An instruction is left if it is
among the first so many, and if those before it have less bytes than the limit. -/
theorem sweep_cut {table : DenseTable} (ht : table.Adequate) (data : Array UInt8) (start : Int)
    (limits : Limits) :
    ∃ whole found, sweep table data start {} = .ok whole ∧
      sweep table data start limits = .ok found ∧ found <+: whole ∧
      ∀ k, k < whole.length →
        (k < found.length ↔
          (∀ count, limits.count = some count → (k : Int) < count) ∧
            ∀ maxBytes, limits.maxBytes = some maxBytes →
              totalSize (whole.take k) < maxBytes) := by
  obtain ⟨whole, hwhole, hrun⟩ := sweep_run ht data start
  refine ⟨whole, limits.cut whole, hwhole, hrun.sweep_limits ht.length_pos limits, ?_, ?_⟩
  · exact (isPrefix_upTo _ _).trans (isPrefix_startingBelow _ _ _)
  · intro k hk
    exact lt_length_cut_iff (hrun.size_pos ht.length_pos) limits hk

/-- A limit that is met within the second instruction, which is left whole. The third is cut. -/
theorem sweep_cut_inside :
    let data : Array UInt8 := #[0xEA, 0x4C, 0x34, 0x12, 0x4C, 0x00]
    ∃ table whole found, (DenseTable.build .refuse Sample.jumpOnly).result = .ok table ∧
      table.Adequate ∧
      sweep table data 0 {} = .ok whole ∧ whole.map Instruction.size = [1, 3, 2] ∧
      sweep table data 0 { count := some 9, maxBytes := some 2 } = .ok found ∧
      found <+: whole ∧ found.length = 2 := by
  intro data
  obtain ⟨table, htable, hparsed⟩ := Sample.exists_jump
  have hsizes : ((DenseTable.build .refuse Sample.jumpOnly).result.bind fun table =>
      (sweep table data 0 {}).map (List.map Instruction.size)) = .ok [1, 3, 2] := by decide +kernel
  obtain ⟨whole, hwhole, hwholeSizes⟩ := DenseTable.exists_of_build htable hsizes
  obtain ⟨whole', found, hwhole', hfound, hprefix, hcut⟩ :=
    sweep_cut hparsed.adequate data 0 { count := some 9, maxBytes := some 2 }
  obtain rfl := Except.ok.inj (hwhole'.symm.trans hwhole)
  refine ⟨table, whole', found, htable, hparsed.adequate, hwhole, hwholeSizes, hfound, hprefix, ?_⟩
  obtain ⟨i, j, k, rfl⟩ : ∃ i j k, whole' = [i, j, k] :=
    List.length_eq_three.mp (by simpa using congrArg List.length hwholeSizes)
  simp only [List.map_cons, List.cons.injEq] at hwholeSizes
  have hsecond : 1 < found.length := (hcut 1 (by simp)).mpr (by simp [totalSize, hwholeSizes])
  have hthird : ¬ 2 < found.length := fun h => by
    have := ((hcut 2 (by simp)).mp h).2 2 rfl
    simp [totalSize, hwholeSizes] at this
  omega

/-- The limits can be applied in either order. -/
theorem upTo_startingBelow (remaining : Option Nat) (maxBytes : Option Int) (position : Int)
    (found : List Instruction) :
    upTo remaining (startingBelow maxBytes position found) =
      startingBelow maxBytes position (upTo remaining found) := by
  cases remaining with
  | none => rfl
  | some n =>
    simp only [upTo]
    induction found generalizing n position with
    | nil => simp [startingBelow]
    | cons i rest ih =>
      cases n with
      | zero => simp [startingBelow]
      | succ n =>
        simp only [List.take_succ_cons, startingBelow]
        split
        · rfl
        · rw [List.take_succ_cons, ih]

/-- An instruction that starts below a number of bytes and ends behind it. -/
structure Straddles (limit : Int) (before : List Instruction) (i : Instruction) : Prop where
  starts : totalSize before < limit
  ends : limit < totalSize before + i.size

/-- An instruction that straddles the limit is the last to be found. -/
theorem startingBelow_of_straddles {before : List Instruction} (h : ∀ j ∈ before, 1 ≤ j.size)
    {i : Instruction} {limit : Int} (position : Int)
    (hstraddles : Straddles (limit - position) before i) (after : List Instruction) :
    startingBelow (some limit) position (before ++ i :: after) = before ++ [i] := by
  obtain ⟨hstarts, hends⟩ := hstraddles
  induction before generalizing position with
  | nil =>
    simp only [totalSize] at hstarts hends
    rw [List.nil_append, startingBelow_cons (by omega), startingBelow_of_le (by omega),
      List.nil_append]
  | cons j before ih =>
    obtain ⟨hj, hbefore⟩ := List.forall_mem_cons.mp h
    have hnonneg := totalSize_nonneg hbefore
    simp only [totalSize] at hstarts hends
    rw [List.cons_append, startingBelow_cons (by omega),
      ih hbefore (position + j.size) (by omega) (by omega), List.cons_append]

/-- Only an instruction that straddles the limit leads over it. -/
theorem exists_straddles {found : List Instruction} {limit position : Int}
    (hposition : position ≤ limit)
    (h : limit < position + totalSize (startingBelow (some limit) position found)) :
    ∃ before i after, found = before ++ i :: after ∧ Straddles (limit - position) before i := by
  induction found generalizing position with
  | nil =>
    simp only [startingBelow, totalSize] at h
    omega
  | cons i rest ih =>
    rcases Int.lt_or_eq_of_le hposition with hlt | rfl
    · rw [startingBelow_cons hlt, totalSize] at h
      by_cases hends : limit < position + i.size
      · refine ⟨[], i, rest, rfl, ?_, ?_⟩
        all_goals
          simp only [totalSize]
          omega
      · obtain ⟨before, j, after, rfl, hstarts, hends⟩ :=
          @ih (position + i.size) (by omega) (by omega)
        refine ⟨i :: before, j, after, rfl, ?_, ?_⟩
        all_goals
          simp only [totalSize]
          omega
    · rw [startingBelow_of_le (Int.le_refl _), totalSize] at h
      omega

/-- What starts below a limit ends below it too, or its last instruction straddles the limit. -/
theorem startingBelow_cases {found : List Instruction} (h : ∀ i ∈ found, 1 ≤ i.size) {limit : Int}
    (hlimit : 0 ≤ limit) :
    totalSize (startingBelow (some limit) 0 found) ≤ limit ∨
      ∃ before i after, found = before ++ i :: after ∧ Straddles limit before i ∧
        startingBelow (some limit) 0 found = before ++ [i] := by
  by_cases hle : totalSize (startingBelow (some limit) 0 found) ≤ limit
  · exact .inl hle
  · have hlt := Int.not_le.mp hle
    obtain ⟨before, i, after, rfl, hstraddles⟩ := exists_straddles hlimit (by rwa [Int.zero_add])
    have hbefore : ∀ j ∈ before, 1 ≤ j.size := fun j hj => h j (List.mem_append_left _ hj)
    exact .inr ⟨before, i, after, rfl, by rwa [Int.sub_zero] at hstraddles,
      startingBelow_of_straddles hbefore 0 hstraddles after⟩

/-- A sweep has no more bytes than its limit unless an instruction straddles the limit, which then
is the last of the sweep and all of it is there. This can be two bytes more than the limit. -/
theorem sweep_overrun {table : DenseTable} (ht : table.Parsed) (data : Array UInt8) (start : Int)
    (count : Option Int) {maxBytes : Int} (hmax : 0 ≤ maxBytes) :
    ∃ whole found, sweep table data start { count := count } = .ok whole ∧
      sweep table data start { count := count, maxBytes := some maxBytes } = .ok found ∧
      (totalSize found ≤ maxBytes ↔
        ∀ before i after, whole = before ++ i :: after → ¬ Straddles maxBytes before i) ∧
      (∀ before i after, whole = before ++ i :: after → Straddles maxBytes before i →
        found = before ++ [i]) ∧
      totalSize found ≤ maxBytes + 2 := by
  have hadvance := ht.adequate.length_pos
  obtain ⟨run, hrun, hcount⟩ := sweep_count ht.adequate data start
  have hlimited : sweep table data start { count := count, maxBytes := some maxBytes } =
      .ok (startingBelow (some maxBytes) 0 (upTo (count.map Int.toNat) run)) := by
    rw [← upTo_startingBelow]
    exact hrun.sweep_limits hadvance _
  refine ⟨_, _, hcount count, hlimited, ?_⟩
  have hsize : ∀ i ∈ upTo (count.map Int.toNat) run, 1 ≤ i.size := fun i hi =>
    hrun.size_pos hadvance i (mem_of_mem_upTo hi)
  have hthree : ∀ i ∈ upTo (count.map Int.toNat) run, i.size ≤ 3 := fun i hi =>
    hrun.size_le ht i (mem_of_mem_upTo hi)
  generalize upTo (count.map Int.toNat) run = whole at hsize hthree
  have hlast : ∀ before i after, whole = before ++ i :: after → Straddles maxBytes before i →
      startingBelow (some maxBytes) 0 whole = before ++ [i] := by
    rintro before i after rfl hstraddles
    have hbefore : ∀ j ∈ before, 1 ≤ j.size := fun j hj => hsize j (List.mem_append_left _ hj)
    exact startingBelow_of_straddles hbefore 0 (by rwa [Int.sub_zero]) after
  refine ⟨⟨?_, ?_⟩, hlast, ?_⟩
  · intro hle before i after hsplit hstraddles
    rw [hlast before i after hsplit hstraddles, totalSize_concat] at hle
    exact absurd hle (Int.not_le.mpr hstraddles.ends)
  · intro hnone
    rcases startingBelow_cases hsize hmax with hle | ⟨before, i, after, hsplit, hstraddles, _⟩
    · exact hle
    · exact absurd hstraddles (hnone before i after hsplit)
  · rcases startingBelow_cases hsize hmax with hle | ⟨before, i, after, hsplit, hstraddles, hfound⟩
    · omega
    · have hi := hthree i (by simp [hsplit])
      have hstarts := hstraddles.starts
      rw [hfound, totalSize_concat]
      omega

/-- A jump that starts at the last byte below the limit. -/
theorem sweep_overrun_jump :
    ∃ table whole found, (DenseTable.build .refuse Sample.jumpOnly).result = .ok table ∧
      table.Parsed ∧
      sweep table #[0xEA, 0x4C, 0x34, 0x12] 0 {} = .ok whole ∧
      sweep table #[0xEA, 0x4C, 0x34, 0x12] 0 { maxBytes := some 2 } = .ok found ∧
      totalSize found = 2 + 2 ∧ totalSize found ≤ 2 + 2 ∧
      ∃ before i after, whole = before ++ i :: after ∧ Straddles 2 before i := by
  obtain ⟨table, htable, hparsed⟩ := Sample.exists_jump
  have htotal : ((DenseTable.build .refuse Sample.jumpOnly).result.bind fun table =>
      (sweep table #[0xEA, 0x4C, 0x34, 0x12] 0 { maxBytes := some 2 }).map
        totalSize) = .ok 4 := by decide +kernel
  obtain ⟨whole, found, hwhole, hfound, hkept, _, hle⟩ :=
    sweep_overrun hparsed #[0xEA, 0x4C, 0x34, 0x12] 0 none (show 0 ≤ 2 by omega)
  obtain ⟨found', hfound', hsize⟩ := DenseTable.exists_of_build htable htotal
  obtain rfl := Except.ok.inj (hfound.symm.trans hfound')
  refine ⟨table, whole, found, htable, hparsed, hwhole, hfound, hsize, hle, ?_⟩
  by_contra hnone
  have : totalSize found ≤ 2 := hkept.mpr fun before i after hsplit hstraddles =>
    hnone ⟨before, i, after, hsplit, hstraddles⟩
  omega

/-- Three bytes for a limit of two. -/
theorem sweep_limit_exceeded :
    let load : Record := Sample.load (some { filename := "<input>", line := 1 })
    ∃ table found, (DenseTable.build .refuse [load]).result = .ok table ∧ table.Parsed ∧
      sweep table #[0xEA, 0xA9, 0x10] 0 { maxBytes := some 2 } = .ok found ∧
      found.flatMap Instruction.rawBytes = [0xEA, 0xA9, 0x10] ∧ ¬ totalSize found ≤ 2 := by
  intro load
  have hread : (Table.ofText "<input>" "Immediate|LDA|A9|2".toList).result = .ok [load] := rfl
  obtain ⟨table, htable, hparsed⟩ := DenseTable.exists_parsed .refuse hread (by decide +kernel)
  have hfound : ((DenseTable.build .refuse [load]).result.bind fun table =>
      (sweep table #[0xEA, 0xA9, 0x10] 0 { maxBytes := some 2 }).map fun found =>
        (found.flatMap Instruction.rawBytes, totalSize found)) =
      .ok ([0xEA, 0xA9, 0x10], 3) := by decide +kernel
  obtain ⟨found, hsweep, hpair⟩ := DenseTable.exists_of_build htable hfound
  obtain ⟨hbytes, htotal⟩ := Prod.mk.inj hpair
  exact ⟨table, found, htable, hparsed, hsweep, hbytes, by omega⟩

end Cpu6502.Sweep
