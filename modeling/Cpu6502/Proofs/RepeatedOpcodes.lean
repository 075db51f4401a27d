import Cpu6502.Proofs.LastRecord
import Cpu6502.Proofs.TableParts

namespace Cpu6502

namespace Logged

variable {α β γ : Type}

theorem bind_assoc (first : Logged α) (next : α → Logged β) (last : β → Logged γ) :
    first >>= next >>= last = first >>= fun a => next a >>= last := by
  change Logged.bind (Logged.bind first next) last =
    Logged.bind first fun a => Logged.bind (next a) last
  unfold Logged.bind
  cases first.result with
  | error fault => rfl
  | ok a => cases hnext : (next a).result <;> simp [hnext]

theorem pure_bind (a : α) (next : α → Logged β) : pure a >>= next = next a := rfl

theorem bind_pure (first : Logged α) : first >>= pure = first := by
  obtain ⟨result, log⟩ := first
  change Logged.bind ⟨result, log⟩ pure = _
  cases result with
  | error fault => rfl
  | ok a => exact congrArg (Logged.mk _) (List.append_nil log)

end Logged

namespace OpcodeIndex

variable {policy : RepeatPolicy} {records before after : List Record} {record r : Record}

theorem addAll_append (policy : RepeatPolicy) (index first second : List Record) :
    addAll policy index (first ++ second) =
      addAll policy index first >>= fun next => addAll policy next second := by
  induction first generalizing index with
  | nil => rfl
  | cons record rest ih =>
    rw [List.cons_append, addAll, addAll, Logged.bind_assoc]
    exact congrArg (add policy index record >>= ·) (funext ih)

theorem ofRecords_concat (policy : RepeatPolicy) (records : List Record) (record : Record) :
    ofRecords policy (records ++ [record]) =
      ofRecords policy records >>= fun index => add policy index record := by
  rw [ofRecords, addAll_append]
  exact congrArg (ofRecords policy records >>= ·)
    (funext fun index => Logged.bind_pure (add policy index record))

theorem put_of_find?_eq_none {index : List Record} (h : find? index record.opcode = none) :
    put record index = index ++ [record] := by
  induction index with
  | nil => rfl
  | cons head rest ih =>
    rw [find?_cons] at h
    split at h
    · cases h
    · rename_i hother
      rw [put, if_neg hother, ih h, List.cons_append]

theorem add_of_find?_eq_none {index : List Record} (h : find? index record.opcode = none) :
    add policy index record = pure (index ++ [record]) := by
  rw [add, h, ← put_of_find?_eq_none h]

theorem find?_eq_none_iff {index : List Record} {opcode : Int} :
    find? index opcode = none ↔ opcode ∉ index.map Record.opcode := by
  simp [find?]

/-- Records without a repeated opcode are their own index, and there is nothing to log. -/
theorem ofRecords_of_nodup (policy : RepeatPolicy) (h : (records.map Record.opcode).Nodup) :
    ofRecords policy records = pure records := by
  induction records using List.reverseRecOn with
  | nil => rfl
  | append_singleton records record ih =>
    rw [List.map_append, List.nodup_append] at h
    obtain ⟨hrecords, _, hapart⟩ := h
    have hnew : record.opcode ∉ records.map Record.opcode :=
      fun hmem => hapart _ hmem _ (List.mem_singleton_self _) rfl
    rw [ofRecords_concat, ih hrecords, Logged.pure_bind,
      add_of_find?_eq_none (find?_eq_none_iff.mpr hnew)]

theorem find?_of_nodup (h : (records.map Record.opcode).Nodup) (hr : r ∈ records) :
    find? records r.opcode = some r := by
  cases hfound : find? records r.opcode with
  | none => exact absurd (List.mem_map_of_mem hr) (find?_eq_none_iff.mp hfound)
  | some found =>
    obtain ⟨hmem, hopcode⟩ := find?_eq hfound
    rw [List.inj_on_of_nodup_map h hmem hr hopcode]

/-- A record is refused if its opcode has one before it, where nothing was refused. -/
theorem ofRecords_refuse (after : List Record) (h : (before.map Record.opcode).Nodup)
    (hr : r ∈ before) (hopcode : r.opcode = record.opcode) :
    (ofRecords .refuse (before ++ record :: after)).result =
      .error (.table (duplicate record r)) := by
  have hadd : (add .refuse before record).result = .error (.table (duplicate record r)) := by
    rw [add, ← hopcode, find?_of_nodup h hr]
    rfl
  rw [ofRecords, addAll_append, ← ofRecords, ofRecords_of_nodup .refuse h, Logged.pure_bind]
  exact Logged.bind_error.mpr (.inl hadd)

/-- Two positions hold records for one opcode. -/
def Repeats (records : List Record) (i j : Nat) : Prop :=
  i < j ∧ ∃ first again, records[i]? = some first ∧ records[j]? = some again ∧
    first.opcode = again.opcode

/-- The second of two positions for one opcode, with no such position before it. -/
structure FirstRepeat (records : List Record) (i j : Nat) : Prop where
  repeats : Repeats records i j
  least : ∀ i' j', Repeats records i' j' → j ≤ j'

theorem nodup_iff_not_repeats :
    (records.map Record.opcode).Nodup ↔ ¬ ∃ i j, Repeats records i j := by
  rw [List.nodup_iff_getElem?_ne_getElem?]
  constructor
  · rintro h ⟨i, j, hlt, first, again, hfirst, hagain, hopcode⟩
    obtain ⟨hj, _⟩ := List.getElem?_eq_some_iff.mp hagain
    refine h i j hlt (by simpa using hj) ?_
    rw [List.getElem?_map, List.getElem?_map, hfirst, hagain, Option.map_some, Option.map_some,
      hopcode]
  · intro h i j hlt hj hsame
    rw [List.length_map] at hj
    have hi := hlt.trans hj
    rw [List.getElem?_map, List.getElem?_map, List.getElem?_eq_getElem hi,
      List.getElem?_eq_getElem hj] at hsame
    exact h ⟨i, j, hlt, _, _, List.getElem?_eq_getElem hi, List.getElem?_eq_getElem hj,
      Option.some.inj hsame⟩

namespace FirstRepeat

variable {i j : Nat}

theorem nodup_before (h : FirstRepeat records i j) :
    ((records.take j).map Record.opcode).Nodup := by
  rw [nodup_iff_not_repeats]
  rintro ⟨i', j', hlt, first, again, hfirst, hagain, hopcode⟩
  have hj : j' < j := by
    obtain ⟨hlength, _⟩ := List.getElem?_eq_some_iff.mp hagain
    rw [List.length_take] at hlength
    omega
  rw [List.getElem?_take_of_lt (hlt.trans hj)] at hfirst
  rw [List.getElem?_take_of_lt hj] at hagain
  have hle := h.least i' j' ⟨hlt, first, again, hfirst, hagain, hopcode⟩
  omega

/-- There is one record only that it repeats. -/
theorem unique (h : FirstRepeat records i j) {i' : Nat} (h' : Repeats records i' j) : i' = i := by
  obtain ⟨⟨hlt, first, again, hfirst, hagain, hopcode⟩, hleast⟩ := h
  obtain ⟨hlt', first', again', hfirst', hagain', hopcode'⟩ := h'
  obtain rfl : again = again' := Option.some.inj (hagain.symm.trans hagain')
  have hsame : first.opcode = first'.opcode := hopcode.trans hopcode'.symm
  rcases Nat.lt_trichotomy i i' with hbelow | heq | habove
  · have hle := hleast i i' ⟨hbelow, first, first', hfirst, hfirst', hsame⟩
    omega
  · exact heq.symm
  · have hle := hleast i' i ⟨habove, first', first, hfirst', hfirst, hsame.symm⟩
    omega

/-- The two records, and those before the second of them. -/
theorem split (h : FirstRepeat records i j) :
    ∃ first again after, records[i]? = some first ∧ records[j]? = some again ∧
      records = records.take j ++ again :: after ∧ first ∈ records.take j ∧
      first.opcode = again.opcode := by
  obtain ⟨hlt, first, again, hfirst, hagain, hopcode⟩ := h.repeats
  obtain ⟨hj, hgetj⟩ := List.getElem?_eq_some_iff.mp hagain
  refine ⟨first, again, records.drop (j + 1), hfirst, hagain, ?_, ?_, hopcode⟩
  · rw [← hgetj, ← List.drop_eq_getElem_cons hj, List.take_append_drop]
  · apply List.mem_of_getElem? (i := i)
    rw [List.getElem?_take_of_lt hlt, hfirst]

/-- Where opcodes may not be repeated, the first record that does so is refused. -/
theorem refused (h : FirstRepeat records i j) :
    ∃ first again, records[i]? = some first ∧ records[j]? = some again ∧
      (ofRecords .refuse records).result = .error (.table (duplicate again first)) := by
  obtain ⟨first, again, after, hfirst, hagain, hsplit, hmem, hopcode⟩ := h.split
  refine ⟨first, again, hfirst, hagain, ?_⟩
  rw [hsplit]
  exact ofRecords_refuse after h.nodup_before hmem hopcode

end FirstRepeat

end OpcodeIndex

namespace Table

open OpcodeIndex

variable {filename : String} {number : Nat} {lines : List (List Char)} {record : Record}
  {before after : List Record}

end Table

namespace OpcodeIndex

end OpcodeIndex

end Cpu6502
