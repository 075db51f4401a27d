import Cpu6502.Proofs.ParsedTable
import Mathlib.Data.List.Nodup

namespace Cpu6502.OpcodeIndex

/-- The records for an opcode, in their order. -/
def allFor (records : List Record) (opcode : Int) : List Record :=
  records.filter fun r => r.opcode == opcode

/-- The last record for an opcode. -/
def last? (records : List Record) (opcode : Int) : Option Record :=
  (allFor records opcode).getLast?

theorem allFor_eq_nil_iff {records : List Record} {opcode : Int} :
    allFor records opcode = [] ↔ ∀ r ∈ records, r.opcode ≠ opcode := by
  simp only [allFor, List.filter_eq_nil_iff, beq_iff_eq, ne_eq]

/-- No opcode is repeated where none has two records. -/
theorem nodup_opcodes_iff {records : List Record} :
    (records.map Record.opcode).Nodup ↔ ∀ opcode, (allFor records opcode).length ≤ 1 := by
  have hcount (opcode : Int) :
      (records.map Record.opcode).count opcode = (allFor records opcode).length := by
    rw [List.count, List.countP_map, List.countP_eq_length_filter]
    rfl
  simp only [List.nodup_iff_count_le_one, hcount]

theorem last?_cons (record : Record) (rest : List Record) (opcode : Int) :
    last? (record :: rest) opcode =
      (last? rest opcode).or (if record.opcode = opcode then some record else none) := by
  by_cases h : record.opcode = opcode
  · simp [last?, allFor, h, List.getLast?_cons]
  · simp [last?, allFor, h]

/-- The last record for an opcode is the one that no record for it follows. -/
theorem last?_eq_some_iff {records : List Record} {opcode : Int} {r : Record} :
    last? records opcode = some r ↔
      ∃ before after, records = before ++ r :: after ∧ r.opcode = opcode ∧
        ∀ other ∈ after, other.opcode ≠ opcode := by
  constructor
  · intro h
    induction records with
    | nil => simp [last?, allFor] at h
    | cons record rest ih =>
      rw [last?_cons] at h
      cases hrest : last? rest opcode with
      | some found =>
        rw [hrest, Option.some_or] at h
        obtain ⟨before, after, hsplit, hopcode, hafter⟩ := ih (hrest.trans h)
        exact ⟨record :: before, after, by rw [hsplit, List.cons_append], hopcode, hafter⟩
      | none =>
        rw [hrest, Option.none_or] at h
        split at h
        · rename_i hopcode
          cases h
          refine ⟨[], rest, rfl, hopcode, ?_⟩
          exact allFor_eq_nil_iff.mp (List.getLast?_eq_none_iff.mp hrest)
        · cases h
  · rintro ⟨before, after, rfl, hopcode, hafter⟩
    have hnone := allFor_eq_nil_iff.mpr hafter
    rw [allFor] at hnone
    simp [last?, allFor, hopcode, hnone]

theorem last?_eq_none_iff {records : List Record} {opcode : Int} :
    last? records opcode = none ↔ ∀ r ∈ records, r.opcode ≠ opcode := by
  rw [last?, List.getLast?_eq_none_iff, allFor_eq_nil_iff]

theorem find?_cons (head : Record) (rest : List Record) (opcode : Int) :
    find? (head :: rest) opcode =
      if head.opcode = opcode then some head else find? rest opcode := by
  by_cases h : head.opcode = opcode <;> simp [find?, h]

/-- A record that is put in stands for its opcode, and every other opcode keeps its record. -/
theorem find?_put (record : Record) (index : List Record) (opcode : Int) :
    find? (put record index) opcode =
      if record.opcode = opcode then some record else find? index opcode := by
  induction index with
  | nil => exact find?_cons record [] opcode
  | cons head rest ih =>
    unfold put
    split
    · rename_i hsame
      rw [find?_cons, find?_cons, hsame]
      split <;> rfl
    · rename_i hother
      rw [find?_cons, find?_cons, ih]
      by_cases h : head.opcode = opcode
      · have : record.opcode ≠ opcode := fun he => hother (h.trans he.symm)
        simp [h, this]
      · simp [h]

theorem find?_addAll {policy : RepeatPolicy} {index records found : List Record}
    (h : (addAll policy index records).result = .ok found) (opcode : Int) :
    find? found opcode = (last? records opcode).or (find? index opcode) := by
  induction records generalizing index with
  | nil =>
    cases h
    rfl
  | cons record rest ih =>
    obtain ⟨next, hnext, h⟩ := Logged.bind_ok.mp h
    cases add_ok hnext
    rw [ih h, find?_put, last?_cons]
    cases last? rest opcode with
    | some r => rfl
    | none =>
      split <;> rfl

/-- An index finds the last record for each opcode. -/
theorem find?_ofRecords {policy : RepeatPolicy} {records found : List Record}
    (h : (ofRecords policy records).result = .ok found) (opcode : Int) :
    find? found opcode = last? records opcode := by
  rw [find?_addAll h, show find? [] opcode = none from rfl, Option.or_none]

theorem add_ok_iff {policy : RepeatPolicy} {index : List Record} {record : Record} :
    (add policy index record).result = .ok (put record index) ↔
      (policy = .refuse → find? index record.opcode = none) := by
  unfold add
  cases find? index record.opcode with
  | none => simp [pure]
  | some old =>
    cases policy with
    | refuse => simp [Logged.fail]
    | lastWins =>
      simp only [reduceCtorEq, false_imp_iff, iff_true]
      rfl

/-- The fault with which a repeated opcode is refused. -/
def Refused (fault : Fault) : Prop := ∃ error, fault = .table error ∧ error.kind = .duplicateOpcode

theorem add_error {policy : RepeatPolicy} {index : List Record} {record : Record} {fault : Fault}
    (h : (add policy index record).result = .error fault) : Refused fault := by
  unfold add at h
  split at h
  · cases h
  · split at h
    · cases h
      exact ⟨_, rfl, rfl⟩
    · cases h

theorem addAll_error {policy : RepeatPolicy} {index records : List Record} {fault : Fault}
    (h : (addAll policy index records).result = .error fault) : Refused fault := by
  induction records generalizing index with
  | nil => cases h
  | cons record rest ih =>
    rcases Logged.bind_error.mp h with hadd | ⟨next, _, hrest⟩
    · exact add_error hadd
    · exact ih hrest

/-- An opcode that is in no index once a record is put in belongs to another record. -/
theorem find?_put_eq_none {record : Record} {index : List Record} {opcode : Int} :
    find? (put record index) opcode = none ↔
      record.opcode ≠ opcode ∧ find? index opcode = none := by
  rw [find?_put]
  split
  · rename_i hsame
    simp [hsame]
  · rename_i hother
    simp [hother]

/-- Records are added unless one repeats an opcode, of another or of the index before. -/
theorem addAll_ok_iff {policy : RepeatPolicy} {index records : List Record} :
    (∃ found, (addAll policy index records).result = .ok found) ↔
      (policy = .refuse →
        (records.map Record.opcode).Nodup ∧ ∀ r ∈ records, find? index r.opcode = none) := by
  induction records generalizing index with
  | nil => exact ⟨fun _ _ => by simp, fun _ => ⟨index, rfl⟩⟩
  | cons record rest ih =>
    have hstep : (∃ found, (addAll policy index (record :: rest)).result = .ok found) ↔
        (add policy index record).result = .ok (put record index) ∧
          ∃ found, (addAll policy (put record index) rest).result = .ok found := by
      constructor
      · rintro ⟨found, h⟩
        obtain ⟨next, hnext, h⟩ := Logged.bind_ok.mp h
        cases add_ok hnext
        exact ⟨hnext, found, h⟩
      · rintro ⟨hnext, found, h⟩
        exact ⟨found, Logged.bind_ok.mpr ⟨_, hnext, h⟩⟩
    have hapart : (∀ r ∈ rest, record.opcode ≠ r.opcode) ↔
        record.opcode ∉ rest.map Record.opcode := by
      simp only [List.mem_map, not_exists, not_and, ne_eq, eq_comm (a := record.opcode)]
    rw [hstep, add_ok_iff, ih, ← forall_and]
    refine forall_congr' fun _ => ?_
    simp only [find?_put_eq_none, forall_and, hapart, List.map_cons, List.nodup_cons,
      List.forall_mem_cons]
    tauto

/-- An index is made unless an opcode is repeated that may not be. -/
theorem ofRecords_ok_iff {policy : RepeatPolicy} {records : List Record} :
    (∃ found, (ofRecords policy records).result = .ok found) ↔
      (policy = .refuse → (records.map Record.opcode).Nodup) := by
  have hempty : ∀ r ∈ records, find? [] r.opcode = none := fun _ _ => rfl
  rw [ofRecords, addAll_ok_iff]
  simp only [and_iff_left hempty]

end Cpu6502.OpcodeIndex
