import Cpu6502.Files
import Cpu6502.Proofs.LineGrammar
import Mathlib.Data.List.Infix

namespace Cpu6502

namespace Path

/-- Whether what stands between slashes leads somewhere. -/
def leads (segment : RawText) : Bool := segment != [] && segment != dot

theorem parts_eq (path : RawText) : parts path = (path.splitOn slash).filter leads := rfl

/-- A root and segments written as a path. -/
def spelled (root : RawText) (segments : List RawText) : RawText := root ++ join segments

/-- What slashes can set off. -/
def Segment (segment : RawText) : Prop := segment ≠ [] ∧ slash ∉ segment

theorem leads_empty : leads [] = false := rfl

theorem leads_dot : leads dot = false := rfl

theorem segment_dot : Segment dot := ⟨by decide, by decide⟩

/-- The three ways in which a path can start. -/
def IsRoot (root : RawText) : Prop := root = [] ∨ root = [slash] ∨ root = [slash, slash]

theorem isRoot_root (path : RawText) : IsRoot (root path) := by
  unfold root
  split
  · exact .inl rfl
  · exact .inr (.inr rfl)
  · exact .inr (.inl rfl)

theorem root_eq_nil_iff {path : RawText} : root path = [] ↔ path.head? ≠ some slash := by
  unfold root
  cases path with
  | nil => simp
  | cons s rest =>
    by_cases hs : s = slash
    · subst hs
      rw [List.takeWhile_cons_of_pos rfl, List.length_cons]
      split <;> simp_all
    · simp [hs]

theorem segment_of_mem_parts {path part : RawText} (h : part ∈ parts path) : Segment part := by
  rw [parts_eq, List.mem_filter] at h
  obtain ⟨hmem, hleads⟩ := h
  simp only [leads, Bool.and_eq_true, bne_iff_ne] at hleads
  have hslash : slash ∉ part := Line.not_mem_of_mem_splitOn hmem
  exact ⟨hleads.1, hslash⟩

theorem splitOn_slash (path : RawText) :
    (slash :: path).splitOn slash = [] :: path.splitOn slash := by
  simp [List.splitOn_cons_eq_if_modifyHead]

/-- A path with a root starts with a slash. -/
theorem eq_slash_cons {path : RawText} (h : root path ≠ []) : ∃ rest, path = slash :: rest := by
  rw [Ne, root_eq_nil_iff, not_not] at h
  exact List.head?_eq_some_iff.mp h

/-- A path without a root does not start with a slash. -/
theorem head_splitOn {path : RawText} (hroot : root path = []) (hne : path ≠ []) :
    (path.splitOn slash).head? ≠ some [] := by
  rw [root_eq_nil_iff] at hroot
  obtain ⟨s, rest, rfl⟩ := List.exists_cons_of_ne_nil hne
  have hs : s ≠ slash := by simpa using hroot
  obtain ⟨first, others, hsplit⟩ := List.exists_cons_of_ne_nil (List.splitOn_ne_nil slash rest)
  simp [List.splitOn_cons_eq_if_modifyHead, hs, hsplit]

theorem splitOn_join {parts : List RawText} (hne : parts ≠ []) (h : ∀ p ∈ parts, Segment p) :
    (join parts).splitOn slash = parts :=
  List.splitOn_intercalate slash (fun p hp => (h p hp).2) hne

theorem head_join {parts : List RawText} (h : ∀ p ∈ parts, Segment p) :
    (join parts).head? ≠ some slash := by
  cases parts with
  | nil => simp [join]
  | cons part rest =>
    obtain ⟨hne, hslash⟩ := h part List.mem_cons_self
    obtain ⟨s, symbols, rfl⟩ := List.exists_cons_of_ne_nil hne
    rw [List.mem_cons, not_or] at hslash
    cases rest with
    | nil => simpa [join] using Ne.symm hslash.1
    | cons next rest => simpa [join, List.intercalate_cons_cons] using Ne.symm hslash.1

theorem parts_slash (path : RawText) : parts (slash :: path) = parts path := by
  rw [parts_eq, splitOn_slash]
  rfl

/-- A path has the segments as parts that it is spelled with, except for idle ones. -/
theorem parts_spelled {root : RawText} (hroot : IsRoot root) {segments : List RawText}
    (h : ∀ s ∈ segments, Segment s) : parts (spelled root segments) = segments.filter leads := by
  have hjoin : parts (join segments) = segments.filter leads := by
    by_cases hne : segments = []
    · subst hne
      rfl
    · rw [parts_eq, splitOn_join hne h]
  rcases hroot with rfl | rfl | rfl
  · exact hjoin
  · exact (parts_slash _).trans hjoin
  · exact (parts_slash _).trans ((parts_slash _).trans hjoin)

theorem root_spelled {root : RawText} (hroot : IsRoot root) {segments : List RawText}
    (h : ∀ s ∈ segments, Segment s) : Path.root (spelled root segments) = root := by
  have hjoin : (join segments).takeWhile (· == slash) = [] := by
    have := head_join h
    cases hcs : join segments with
    | nil => rfl
    | cons c cs => simpa [hcs] using this
  rcases hroot with rfl | rfl | rfl
  all_goals simp [Path.root, spelled, hjoin]

/-- The segments of a path that is written without idle parts: a dot where nothing else is left. -/
def kept (path : RawText) : List RawText :=
  if root path = [] ∧ parts path = [] then [dot] else parts path

theorem segment_of_mem_kept {path segment : RawText} (h : segment ∈ kept path) :
    Segment segment := by
  unfold kept at h
  split at h
  · rw [List.mem_singleton.mp h]
    exact segment_dot
  · exact segment_of_mem_parts h

theorem kept_leads (path : RawText) : (kept path).filter leads = parts path := by
  unfold kept
  split
  · rename_i h
    rw [h.2]
    rfl
  · rw [parts_eq, List.filter_filter]
    simp

theorem join_ne_nil {parts : List RawText} (hne : parts ≠ []) (h : ∀ p ∈ parts, Segment p) :
    join parts ≠ [] := by
  intro hempty
  have hparts := splitOn_join hne h
  rw [hempty] at hparts
  exact (h [] (hparts ▸ List.mem_singleton_self [])).1 rfl

theorem normalise_eq (path : RawText) : normalise path = spelled (root path) (kept path) := by
  have hsegment : ∀ p ∈ parts path, Segment p := fun _ => segment_of_mem_parts
  unfold normalise kept
  split
  · rename_i hempty
    obtain ⟨hroot, hjoin⟩ := List.append_eq_nil_iff.mp hempty
    have hparts : parts path = [] := by
      by_contra hne
      exact join_ne_nil hne hsegment hjoin
    simp [hroot, hparts, spelled, join]
  · rename_i hne
    rw [if_neg]
    · rfl
    · rintro ⟨hroot, hparts⟩
      exact hne (by simp [hroot, hparts, join])

theorem root_normalise (path : RawText) : root (normalise path) = root path := by
  rw [normalise_eq]
  exact root_spelled (isRoot_root path) fun _ => segment_of_mem_kept

theorem parts_normalise (path : RawText) : parts (normalise path) = parts path := by
  rw [normalise_eq, parts_spelled (isRoot_root path) fun _ => segment_of_mem_kept, kept_leads]

theorem intercalate_sublist {α : Type} (x : α) {groups groups' : List (List α)}
    (h : groups.Sublist groups') : ([x].intercalate groups).Sublist ([x].intercalate groups') := by
  induction h with
  | slnil => exact .slnil
  | @cons groups groups' group h ih =>
    cases groups' with
    | nil =>
      rw [List.sublist_nil.mp h]
      exact List.nil_sublist _
    | cons next rest =>
      rw [List.intercalate_cons_cons]
      exact ih.trans (List.sublist_append_right _ _)
  | @cons_cons groups groups' group h ih =>
    cases groups with
    | nil =>
      rw [List.intercalate_singleton]
      cases groups' with
      | nil => simp
      | cons next rest =>
        rw [List.intercalate_cons_cons, List.append_assoc]
        exact List.sublist_append_left _ _
    | cons first others =>
      cases groups' with
      | nil => exact absurd h (by simp)
      | cons next rest =>
        rw [List.intercalate_cons_cons, List.intercalate_cons_cons]
        exact ih.append_left _

theorem root_sublist (path : RawText) :
    (root path).Sublist (path.takeWhile (· == slash)) := by
  have hslashes : path.takeWhile (· == slash) =
      List.replicate (path.takeWhile (· == slash)).length slash := by
    apply List.eq_replicate_of_mem
    intro s hs
    exact beq_iff_eq.mp (List.mem_takeWhile_imp (p := fun d => d == slash) hs)
  unfold root
  rw [hslashes, List.length_replicate]
  split
  · exact List.nil_sublist _
  · rename_i h
    rw [h]
    exact List.Sublist.refl _
  · rename_i h _
    exact (List.replicate_sublist_replicate slash).mpr (Nat.one_le_iff_ne_zero.mpr h)

/-- The slashes at the front of a path set off nothing that leads anywhere. -/
theorem parts_dropWhile (path : RawText) : parts (path.dropWhile (· == slash)) = parts path := by
  induction path with
  | nil => rfl
  | cons s rest ih =>
    by_cases hs : s = slash
    · subst hs
      rw [List.dropWhile_cons_of_pos rfl, ih, parts_slash]
    · rw [List.dropWhile_cons_of_neg (by simpa using hs)]

theorem normalise_sublist (path : RawText) :
    (root path ++ join (parts path)).Sublist path := by
  have hjoin : (join (parts path)).Sublist (path.dropWhile (· == slash)) := by
    have hfilter := intercalate_sublist slash
      (List.filter_sublist (p := leads) (l := (path.dropWhile (· == slash)).splitOn slash))
    rwa [List.intercalate_splitOn, ← parts_eq, parts_dropWhile] at hfilter
  have happend := (root_sublist path).append hjoin
  rwa [List.takeWhile_append_dropWhile] at happend

end Path

namespace Files

open Cpu6502.Path

variable {files : Files}

/-- A path that can be looked up at all. -/
def Fits (path : RawText) : Prop := .char '\x00' ∉ path ∧ path.size ≤ pathLimit

theorem fits_normalise {path : RawText} (h : Fits path) : Fits (normalise path) := by
  have hsublist := normalise_sublist path
  unfold normalise
  split
  · exact ⟨by decide, by decide⟩
  · refine ⟨fun hm => h.1 (hsublist.subset hm), Nat.le_trans ?_ h.2⟩
    exact RawText.size_le_of_sublist hsublist

/-- Where segments lead that follow each other. -/
def follow (files : Files) : List RawText → Node
  | [[]] => .nothing .missing
  | [] :: rest => rest.foldl files.step (.directory [])
  | segments => segments.foldl files.step (.directory files.workingDirectory)

theorem lookup_of_fits {path : RawText} (h : Fits path) :
    files.lookup path = files.follow (path.splitOn slash) := by
  have hnull : path.contains (.char '\x00') = false := by simpa using h.1
  rw [lookup, hnull, if_neg Bool.false_ne_true, if_neg (Nat.not_lt.mpr h.2)]
  rfl

/-- Nothing is found on a path that is too long or has a null character in it. -/
theorem fits_of_lookup (files : Files) {path : RawText}
    (hnull : files.lookup path ≠ .nothing .nullCharacter)
    (hlong : files.lookup path ≠ .nothing .nameTooLong) : Fits path := by
  constructor
  · intro hm
    exact hnull (by rw [lookup, if_pos (by simpa using hm)])
  · by_contra h
    apply hlong
    rw [lookup, if_neg, if_pos (Nat.lt_of_not_le h)]
    intro hm
    exact hnull (by rw [lookup, if_pos hm])

theorem follow_absolute (files : Files) {rest : List RawText} (h : rest ≠ []) :
    files.follow ([] :: rest) = rest.foldl files.step (.directory []) := by
  cases rest with
  | nil => exact absurd rfl h
  | cons segment rest => rfl

theorem follow_relative (files : Files) {segments : List RawText} (h : segments.head? ≠ some []) :
    files.follow segments = segments.foldl files.step (.directory files.workingDirectory) := by
  unfold follow
  split
  · exact absurd rfl h
  · exact absurd rfl h
  · rfl

/-- The directory in which a path starts. -/
def origin (files : Files) (path : RawText) : List RawText :=
  if root path = [] then files.workingDirectory else []

/-- Where a path leads to by its parts. -/
def walk (files : Files) (path : RawText) : Node :=
  (parts path).foldl files.step (.directory (files.origin path))

theorem step_idle (files : Files) {segment : RawText} (h : leads segment = false)
    (directory : List RawText) :
    files.step (.directory directory) segment = .directory directory := by
  have : (segment == [] || segment == dot) = true := by
    simpa [leads, bne, ← Bool.not_or] using h
  rw [step, if_pos this]

theorem foldl_nothing (segments : List RawText) (cause : AccessFault) :
    segments.foldl files.step (.nothing cause) = .nothing cause := by
  induction segments with
  | nil => rfl
  | cons segment rest ih => exact ih

/-- Idle segments change nothing of where a path leads, unless they follow a file. -/
theorem foldl_filter_leads {segments : List RawText} {place : Node}
    (h : ∀ cause, segments.foldl files.step place ≠ .nothing cause) :
    (segments.filter leads).foldl files.step place = segments.foldl files.step place := by
  induction segments generalizing place with
  | nil => rfl
  | cons segment rest ih =>
    have hrest := ih h
    rw [List.filter_cons]
    split
    · exact hrest
    · rename_i hidle
      cases place with
      | directory directory =>
        rw [files.step_idle (by simpa using hidle)] at hrest
        rw [List.foldl_cons, files.step_idle (by simpa using hidle), hrest]
      | file path content => exact absurd (foldl_nothing rest .notADirectory) (h _)
      | nothing cause => exact absurd (foldl_nothing rest cause) (h _)

/-- What a path leads to is found by its parts. -/
theorem walk_eq_lookup {path : RawText} (h : ∀ cause, files.lookup path ≠ .nothing cause) :
    files.walk path = files.lookup path := by
  have hfits := files.fits_of_lookup (h .nullCharacter) (h .nameTooLong)
  rw [lookup_of_fits hfits] at h ⊢
  by_cases hroot : root path = []
  · have hne : path ≠ [] := by
      rintro rfl
      exact h .missing rfl
    rw [follow_relative files (head_splitOn hroot hne)] at h ⊢
    rw [walk, origin, if_pos hroot, parts_eq, foldl_filter_leads h]
  · obtain ⟨rest, rfl⟩ := eq_slash_cons hroot
    rw [splitOn_slash, follow_absolute files (List.splitOn_ne_nil slash rest)] at h ⊢
    rw [walk, origin, if_neg hroot, parts_slash, parts_eq, foldl_filter_leads h]

theorem foldl_join {parts : List RawText} (h : ∀ p ∈ parts, Segment p) (directory : List RawText) :
    ((join parts).splitOn slash).foldl files.step (.directory directory) =
      parts.foldl files.step (.directory directory) := by
  by_cases hne : parts = []
  · subst hne
    exact files.step_idle leads_empty directory
  · rw [splitOn_join hne h]

/-- A path leads where its segments do, one after the other. -/
theorem lookup_spelled {path root : RawText} {segments : List RawText}
    (hpath : path = spelled root segments) (hfits : Fits path) (hroot : IsRoot root)
    (hsegments : ∀ s ∈ segments, Segment s) (hne : root = [] → segments ≠ []) :
    files.lookup path = segments.foldl files.step (.directory (files.origin path)) := by
  rw [lookup_of_fits hfits, origin, hpath, root_spelled hroot hsegments]
  rcases hroot with rfl | rfl | rfl
  · have hhead : segments.head? ≠ some [] := by
      intro h
      exact (hsegments [] (List.mem_of_head? h)).1 rfl
    rw [spelled, List.nil_append, splitOn_join (hne rfl) hsegments, follow_relative files hhead]
    rfl
  · rw [spelled, List.singleton_append, splitOn_slash,
      follow_absolute files (List.splitOn_ne_nil slash _), foldl_join hsegments]
    rfl
  · rw [spelled, List.cons_append, List.singleton_append, splitOn_slash, splitOn_slash,
      follow_absolute files (by simp), List.foldl_cons, files.step_idle leads_empty,
      foldl_join hsegments]
    rfl

/-- A path without idle parts is looked up by its parts alone. -/
theorem lookup_normalise {path : RawText} (h : Fits (normalise path)) :
    files.lookup (normalise path) = files.walk path := by
  have hne : root path = [] → kept path ≠ [] := by
    intro hroot
    unfold kept
    split
    · simp
    · rename_i hparts
      exact fun hempty => hparts ⟨hroot, hempty⟩
  rw [lookup_spelled (normalise_eq path) h (isRoot_root path) (fun _ => segment_of_mem_kept) hne]
  rw [origin, root_normalise, ← origin, walk]
  unfold kept
  split
  · rename_i hempty
    rw [hempty.2]
    exact files.step_idle leads_dot _
  · rfl

/-- A file is found by the same path without idle parts. -/
theorem read_normalise {path : RawText} {place : List RawText} {content : ByteArray}
    (h : files.lookup path = .file place content) :
    files.read (normalise path) = .ok content := by
  have hfound : ∀ cause, files.lookup path ≠ .nothing cause := by
    intro cause hcause
    rw [h] at hcause
    cases hcause
  have hfits := files.fits_of_lookup (hfound .nullCharacter) (hfound .nameTooLong)
  rw [read, lookup_normalise (fits_normalise hfits), walk_eq_lookup hfound, h]

end Files

end Cpu6502
