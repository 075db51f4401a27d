import Cpu6502.Proofs.PathLookup

namespace Cpu6502.Files

open Cpu6502.Path

variable {files : Files}

/-- These files with some content at a place. -/
def stored (files : Files) (place : List RawText) (content : ByteArray) : Files :=
  { files with entries := put place content files.entries }

theorem write_ok_iff {path : RawText} {content : ByteArray} {after : Files} :
    files.write path content = .ok after ↔
      ∃ place, files.target path = .ok place ∧ files.stored place content = after := by
  rw [write]
  cases files.target path with
  | error cause => simp [Except.map]
  | ok place => simp [Except.map, stored]

theorem find?_put (place other : List RawText) (content : ByteArray)
    (entries : List (List RawText × ByteArray)) :
    ((put place content entries).find? (fun e => e.1 == other)).map Prod.snd =
      if other = place then some content
      else (entries.find? (fun e => e.1 == other)).map Prod.snd := by
  induction entries with
  | nil => by_cases h : other = place <;> simp [put, h, Ne.symm]
  | cons e rest ih =>
    by_cases he : e.1 = place
    · by_cases h : other = place
      · simp [put, he, h]
      · simp [put, he, h, Ne.symm h]
    · by_cases h : e.1 = other
      · have : other ≠ place := h ▸ he
        simp [put, h, this]
      · simpa [put, he, h] using ih

theorem contentOf?_stored (files : Files) (place other : List RawText) (content : ByteArray) :
    (files.stored place content).contentOf? other =
      if other = place then some content else files.contentOf? other :=
  find?_put place other content files.entries

theorem any_put (p : List RawText → Bool) (place : List RawText) (content : ByteArray)
    (entries : List (List RawText × ByteArray)) :
    (put place content entries).any (fun e => p e.1) = (p place || entries.any fun e => p e.1) := by
  induction entries with
  | nil => simp [put]
  | cons e rest ih =>
    by_cases he : e.1 = place
    · simp [put, he]
    · rw [put, if_neg (by simpa using he), List.any_cons, ih, List.any_cons, Bool.or_left_comm]

theorem isDirectory_stored (files : Files) (place directory : List RawText) (content : ByteArray) :
    (files.stored place content).isDirectory directory =
      (files.isDirectory directory || (directory.isPrefixOf place && directory != place)) := by
  rw [isDirectory, isDirectory, stored,
    any_put (fun entry => directory.isPrefixOf entry && directory != entry)]
  ac_rfl

/-- Whatever a directory is in is a directory. -/
theorem isDirectory_of_prefix {outer inner : List RawText} (h : outer <+: inner)
    (hinner : files.isDirectory inner = true) : files.isDirectory outer = true := by
  simp only [isDirectory, Bool.or_eq_true, List.any_eq_true, List.isPrefixOf_iff_prefix,
    Bool.and_eq_true, bne_iff_ne] at hinner ⊢
  rcases hinner with (hworking | ⟨directory, hmem, hin⟩) | ⟨entry, hmem, hin, hne⟩
  · exact .inl (.inl (h.trans hworking))
  · exact .inl (.inr ⟨directory, hmem, h.trans hin⟩)
  · refine .inr ⟨entry, hmem, h.trans hin, ?_⟩
    rintro rfl
    exact hne (hin.eq_of_length_le h.length_le)

theorem isDirectory_origin (files : Files) (path : RawText) :
    files.isDirectory (files.origin path) = true := by
  have hin : files.origin path <+: files.workingDirectory := by
    unfold origin
    split
    · exact List.prefix_rfl
    · exact List.nil_prefix
  simp [isDirectory, hin]

theorem node_eq_file_iff {directory place : List RawText} {part : RawText} {content : ByteArray} :
    files.node directory part = .file place content ↔
      part.size ≤ partLimit ∧ directory ++ [part] = place ∧
        files.contentOf? place = some content := by
  unfold node
  grind

theorem node_eq_directory_iff {directory place : List RawText} {part : RawText} :
    files.node directory part = .directory place ↔
      part.size ≤ partLimit ∧ directory ++ [part] = place ∧
        files.contentOf? place = none ∧ files.isDirectory place = true := by
  unfold node
  grind

theorem node_eq_missing_iff {directory : List RawText} {part : RawText} :
    files.node directory part = .nothing .missing ↔
      part.size ≤ partLimit ∧ files.contentOf? (directory ++ [part]) = none ∧
        files.isDirectory (directory ++ [part]) = false := by
  unfold node
  grind

theorem step_leads {part : RawText} (h : leads part = true) (directory : List RawText) :
    files.step (.directory directory) part =
      if part = up then .directory directory.dropLast else files.node directory part := by
  simp only [leads, Bool.and_eq_true, bne_iff_ne] at h
  simp [step, h.1, h.2]

/-- A way that ends at a directory goes through directories alone. -/
theorem exists_next {part : RawText} {rest : List RawText} {start : Node} {directory : List RawText}
    (h : (part :: rest).foldl files.step start = .directory directory) :
    ∃ next, files.step start part = .directory next ∧
      rest.foldl files.step (.directory next) = .directory directory := by
  rw [List.foldl_cons] at h
  cases hstep : files.step start part with
  | directory next => exact ⟨next, rfl, hstep ▸ h⟩
  | file place content =>
    rw [hstep] at h
    cases rest with
    | nil => cases h
    | cons part rest =>
      rw [List.foldl_cons, step, foldl_nothing] at h
      cases h
  | nothing cause =>
    rw [hstep, foldl_nothing] at h
    cases h

/-- A place at which there is no directory, unless a file there hides it. -/
def Free (files : Files) (place : List RawText) : Prop :=
  files.contentOf? place = none → files.isDirectory place = false

/-- A path leads through its front parts to a directory. Its last part names a place there that is
free for a file. -/
structure Slot (files : Files) (path : RawText) (front : List RawText) (name : RawText)
    (directory : List RawText) : Prop where
  parts : Path.parts path = front ++ [name]
  front : front.foldl files.step (.directory (files.origin path)) = .directory directory
  not_up : name ≠ up
  short : name.size ≤ partLimit
  free : files.Free (directory ++ [name])

theorem leads_last {path name : RawText} {front : List RawText} (h : parts path = front ++ [name]) :
    leads name = true := by
  have hname : name ∈ parts path := by simp [h]
  exact (List.mem_filter.mp hname).2

/-- A path that leads to no directory has a last part. -/
theorem exists_last (files : Files) (path : RawText)
    (h : ∀ directory, files.walk path ≠ .directory directory) :
    ∃ front name, parts path = front ++ [name] ∧ leads name = true ∧
      files.walk path =
        files.step (front.foldl files.step (.directory (files.origin path))) name := by
  rcases List.eq_nil_or_concat (parts path) with hnil | ⟨front, name, hparts⟩
  · exact absurd (by rw [walk, hnil]; rfl) (h (files.origin path))
  · rw [List.concat_eq_append] at hparts
    refine ⟨front, name, hparts, leads_last hparts, ?_⟩
    rw [walk, hparts, List.foldl_append]
    rfl

theorem slot_of_file {path : RawText} {place : List RawText} {content : ByteArray}
    (h : files.walk path = .file place content) :
    ∃ front name directory, Slot files path front name directory ∧ directory ++ [name] = place := by
  obtain ⟨front, name, hparts, hleads, hwalk⟩ := files.exists_last path (by simp [h])
  rw [h] at hwalk
  cases hfront : front.foldl files.step (.directory (files.origin path)) with
  | file => simp [hfront, step] at hwalk
  | nothing => simp [hfront, step] at hwalk
  | directory directory =>
    rw [hfront, step_leads hleads] at hwalk
    split at hwalk
    · cases hwalk
    · rename_i hup
      obtain ⟨hshort, hplace, hcontent⟩ := node_eq_file_iff.mp hwalk.symm
      subst hplace
      have hfree : files.Free (directory ++ [name]) := by simp [Free, hcontent]
      exact ⟨front, name, directory, ⟨hparts, hfront, hup, hshort, hfree⟩, rfl⟩

theorem lookup_parentPath {path : RawText} (hfits : Fits (parentPath path)) :
    files.lookup (parentPath path) =
      (parts path).dropLast.foldl files.step (.directory (files.origin path)) := by
  have hsegment : ∀ s ∈ dot :: (parts path).dropLast, Segment s := by
    intro s hs
    rcases List.mem_cons.mp hs with rfl | hmem
    · exact segment_dot
    · exact segment_of_mem_parts (List.mem_of_mem_dropLast hmem)
  have horigin : files.origin (parentPath path) = files.origin path := by
    rw [origin, parentPath, ← spelled, root_spelled (isRoot_root path) hsegment, ← origin]
  have hpath : parentPath path = spelled (root path) (dot :: (parts path).dropLast) := rfl
  rw [lookup_spelled hpath hfits (isRoot_root path) hsegment (fun _ => by simp), horigin,
    List.foldl_cons, files.step_idle leads_dot]

theorem slot_of_missing {path : RawText} {directory : List RawText}
    (h : files.walk path = .nothing .missing)
    (hparent : files.lookup (parentPath path) = .directory directory) :
    Slot files path (parts path).dropLast (fileName path) directory := by
  obtain ⟨front, name, hparts, hleads, hwalk⟩ := files.exists_last path (by simp [h])
  have hfits : Fits (parentPath path) :=
    files.fits_of_lookup (by simp [hparent]) (by simp [hparent])
  rw [lookup_parentPath hfits, hparts, List.dropLast_concat] at hparent
  rw [h, hparent, step_leads hleads] at hwalk
  split at hwalk
  · cases hwalk
  · rename_i hup
    obtain ⟨hshort, _, hdirectory⟩ := node_eq_missing_iff.mp hwalk.symm
    have hname : fileName path = name := by simp [fileName, hparts]
    rw [hname, hparts, List.dropLast_concat]
    exact ⟨hparts, hparent, hup, hshort, fun _ => hdirectory⟩

/-- Where a path without idle parts leads for writing. -/
theorem target_slot {path : RawText} {place : List RawText}
    (h : files.target (normalise path) = .ok place) :
    Fits (normalise path) ∧
      ∃ front name directory, Slot files path front name directory ∧
        directory ++ [name] = place := by
  have hparent : parentPath (normalise path) = parentPath path := by
    rw [parentPath, root_normalise, parts_normalise, ← parentPath]
  have hname : fileName (normalise path) = fileName path := by
    rw [fileName, parts_normalise, ← fileName]
  unfold target at h
  rw [hparent, hname] at h
  have hfits : Fits (normalise path) := by
    apply files.fits_of_lookup
    all_goals
      intro hlookup
      simp [hlookup] at h
  rw [lookup_normalise hfits] at h
  refine ⟨hfits, ?_⟩
  split at h
  · rename_i hwalk
    cases h
    exact slot_of_file hwalk
  · cases h
  · rename_i hwalk
    split at h
    · rename_i directory hlookup
      cases h
      exact ⟨_, _, directory, slot_of_missing hwalk hlookup, rfl⟩
    · cases h
    · cases h
  · cases h

theorem node_stored {place here directory : List RawText} {part : RawText} (content : ByteArray)
    (hfree : files.Free place) (h : files.node here part = .directory directory) :
    (files.stored place content).node here part = .directory directory := by
  obtain ⟨hshort, hpath, hfile, hdirectory⟩ := node_eq_directory_iff.mp h
  have hne : directory ≠ place := by
    rintro rfl
    simp [hfree hfile] at hdirectory
  apply node_eq_directory_iff.mpr
  refine ⟨hshort, hpath, ?_, ?_⟩
  · rw [contentOf?_stored, if_neg hne, hfile]
  · rw [isDirectory_stored, hdirectory, Bool.true_or]

theorem step_stored {place here directory : List RawText} {part : RawText} (content : ByteArray)
    (hfree : files.Free place) (h : files.step (.directory here) part = .directory directory) :
    (files.stored place content).step (.directory here) part = .directory directory := by
  cases hleads : leads part with
  | false =>
    rw [step_idle _ hleads] at h ⊢
    exact h
  | true =>
    rw [step_leads hleads] at h ⊢
    split at h
    · rwa [if_pos ‹_›]
    · rw [if_neg ‹_›]
      exact node_stored content hfree h

/-- A way through directories stays one as a file is stored at a free place. -/
theorem foldl_stored {place start directory : List RawText} {parts : List RawText}
    (content : ByteArray) (hfree : files.Free place)
    (h : parts.foldl files.step (.directory start) = .directory directory) :
    parts.foldl (files.stored place content).step (.directory start) = .directory directory := by
  induction parts generalizing start with
  | nil => exact h
  | cons part rest ih =>
    obtain ⟨next, hstep, hrest⟩ := exists_next h
    rw [List.foldl_cons, step_stored content hfree hstep]
    exact ih hrest

theorem isDirectory_step {here directory : List RawText} {part : RawText}
    (hhere : files.isDirectory here = true)
    (h : files.step (.directory here) part = .directory directory) :
    files.isDirectory directory = true := by
  cases hleads : leads part with
  | false =>
    rw [step_idle _ hleads] at h
    cases h
    exact hhere
  | true =>
    rw [step_leads hleads] at h
    split at h
    · cases h
      exact isDirectory_of_prefix (List.dropLast_prefix here) hhere
    · exact (node_eq_directory_iff.mp h).2.2.2

theorem isDirectory_foldl {start directory : List RawText} {parts : List RawText}
    (hstart : files.isDirectory start = true)
    (h : parts.foldl files.step (.directory start) = .directory directory) :
    files.isDirectory directory = true := by
  induction parts generalizing start with
  | nil =>
    cases h
    exact hstart
  | cons part rest ih =>
    obtain ⟨next, hstep, hrest⟩ := exists_next h
    exact ih (isDirectory_step hstart hstep) hrest

/-- What a write leaves. The path leads to the content that was written, and everywhere else the
files are as they were. -/
structure Written (files after : Files) (path : RawText) (content : ByteArray) : Prop where
  read : after.read path = .ok content
  place : ∃ place, files.target path = .ok place ∧
    ∀ other, after.contentOf? other = if other = place then some content else files.contentOf? other
  isDirectory : after.isDirectory = files.isDirectory
  workingDirectory : after.workingDirectory = files.workingDirectory

namespace Slot

variable {path name : RawText} {front directory : List RawText}

theorem read_stored (h : Slot files path front name directory) (hfits : Fits (normalise path))
    (content : ByteArray) :
    (files.stored (directory ++ [name]) content).read (normalise path) = .ok content := by
  have hfront := foldl_stored content h.free h.front
  have hleads : leads name = true := leads_last h.parts
  have hnode : (files.stored (directory ++ [name]) content).node directory name =
      .file (directory ++ [name]) content := by
    apply node_eq_file_iff.mpr
    exact ⟨h.short, rfl, by rw [contentOf?_stored, if_pos rfl]⟩
  have horigin : (files.stored (directory ++ [name]) content).origin path = files.origin path := rfl
  rw [read, lookup_normalise hfits, walk, h.parts, List.foldl_append, horigin, hfront,
    List.foldl_cons, List.foldl_nil, step_leads hleads, if_neg h.not_up, hnode]

theorem isDirectory_stored_eq (h : Slot files path front name directory) (content : ByteArray) :
    (files.stored (directory ++ [name]) content).isDirectory = files.isDirectory := by
  have hdirectory := isDirectory_foldl (files.isDirectory_origin path) h.front
  funext other
  rw [isDirectory_stored, Bool.or_eq_left_iff_imp]
  intro hother
  rw [Bool.and_eq_true, List.isPrefixOf_iff_prefix, bne_iff_ne] at hother
  have hin : other <+: directory := by
    rcases List.prefix_concat_iff.mp hother.1 with heq | hin
    · exact absurd heq hother.2
    · exact hin
  exact isDirectory_of_prefix hin hdirectory

end Slot

theorem write_written {path : RawText} {content : ByteArray} {after : Files}
    (h : files.write (normalise path) content = .ok after) :
    Written files after (normalise path) content := by
  obtain ⟨place, htarget, rfl⟩ := write_ok_iff.mp h
  obtain ⟨hfits, front, name, directory, hslot, rfl⟩ := target_slot htarget
  exact {
    read := hslot.read_stored hfits content
    place := ⟨_, htarget, fun other => files.contentOf?_stored _ other content⟩
    isDirectory := hslot.isDirectory_stored_eq content
    workingDirectory := rfl }

end Cpu6502.Files
