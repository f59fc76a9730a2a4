import TagDoc.Proofs.Directories
import TagDoc.Proofs.Stores

/-!
# What saving leaves on the disk

A successful save leaves the page in its file and the index in the index file,
and all other files as they were.  A store that is opened on what it left is
the same store: `load_again` and `load_of_read`.  Saves fail only where the file system does.
-/

namespace TagDoc

/-- The file system refused something. -/
def Failure.ofDisk : Failure → Bool
  | .read _ _ | .readConfig _ _ | .createOutput _ _ | .createDirectory _ _
  | .write _ _ => true
  | .invalidConfig | .invalidConfigIn _ | .invalidRegistry _ | .invalidIndex _
  | .refused _ _ => false

/-- The file system did not refuse what was asked. -/
def Undisturbed {α : Type} (answer : Except Failure α) : Prop :=
  ∀ failure ∈ errorOf? answer, failure.ofDisk = false

instance {α : Type} (answer : Except Failure α) :
    Decidable (Undisturbed answer) :=
  inferInstanceAs
    (Decidable (∀ failure ∈ errorOf? answer, failure.ofDisk = false))

namespace DiskStore

open FileSystem (Keeps Naming)

/-! ## Page files -/

theorem not_isIndexPlace_of_locate {store : DiskStore} {files : FileSystem}
    {key : String} {place : List String}
    (located : files.locate (store.pagePath key) = .ok place) :
    ¬ IsIndexPlace place := by
  have plain : FilePath.Plain ".md" := by decide
  obtain ⟨above, final, ends⟩ :=
    FilePath.segments_join_append store.root key plain
  have naming : Naming (final ++ ".md") := by
    have long : 3 ≤ (final ++ ".md").toList.length := by
      simp
    have other {short : String} (few : short.toList.length < 3) :
        final ++ ".md" ≠ short := by
      rintro rfl
      exact Nat.not_lt.mpr long few
    exact ⟨other (by decide), other (by decide), other (by decide)⟩
  obtain ⟨names, rfl⟩ := FileSystem.place_of_locate located ends naming
  exact not_isIndexPlace_pagePath ends names

theorem isIndexPlace_of_locate {store : DiskStore} {files : FileSystem}
    {place : List String}
    (located : files.locate store.indexPath = .ok place) :
    IsIndexPlace place := by
  obtain ⟨above, ends⟩ := segments_indexPath store
  exact FileSystem.place_of_locate located ends naming_indexFile

/-! ## Saving -/

/-- What a successful save of a page leaves: the place of the page has its
content, the index file has the index, and the other files are kept. -/
structure Saved (store : DiskStore) (draft : PageDraft)
    (files changed : FileSystem) (place : List String) : Prop where
  located : changed.locate (store.pagePath draft.key) = .ok place
  content : changed.root.at? place = some (.file (.readable draft.content))
  index : changed.read store.indexPath =
    .ok (PageRecord.indexText (store.withPage draft).index)
  keeps : Keeps (fun names => names ≠ place ∧ ¬ IsIndexPlace names) files
    changed

section Save

variable {store after : DiskStore} {draft : PageDraft}
  {files changed : FileSystem}

theorem exists_saved {first second : FileSystem}
    (above : ∀ spared, Keeps spared files first)
    (stored : first.write (store.pagePath draft.key) draft.content =
      .ok second)
    (indexed : second.write store.indexPath
      (PageRecord.indexText (store.withPage draft).index) = .ok changed) :
    ∃ place, Saved store draft files changed place := by
  obtain ⟨place, located, content, others⟩ := FileSystem.place_of_write stored
  obtain ⟨before, ends⟩ := segments_indexPath store
  have rest : Keeps (fun names => ¬ IsIndexPlace names) second changed := by
    refine FileSystem.keeps_write indexed ?_
    intro other name same names spared
    have named := (List.append_inj' (same.symm.trans ends) rfl).2
    rw [List.singleton_inj.mp named] at spared
    exact spared ⟨names, rfl⟩
  refine ⟨place, rest.locate located,
    rest.files _ _ (not_isIndexPlace_of_locate located) content,
    FileSystem.read_of_write indexed, ?_⟩
  exact ((above _).trans (others.mono fun _ => And.left)).trans
    (rest.mono fun _ => And.right)

theorem ofDisk_createParent {path : String} {failure : Failure}
    (refused : createParent FileSystem.disk path files =
      (.error failure, changed)) : failure.ofDisk = true := by
  rw [createParent_eq] at refused
  split at refused
  · cases refused
  · next parent _ =>
      dsimp only at refused
      cases answer : (FileSystem.disk.createDirectories parent files).1 with
      | error error =>
          rw [answer] at refused
          cases refused
          rfl
      | ok _ =>
          rw [answer] at refused
          cases refused

theorem ofDisk_writeText {path text : String} {failure : Failure}
    (refused : writeText FileSystem.disk path text files =
      (.error failure, changed)) : failure.ofDisk = true := by
  obtain ⟨error, rfl, _⟩ := write_of_writeText_error refused
  rfl

/-- A save succeeds, or the file system refused something. -/
theorem save_cases {result : Except Failure String}
    (saved : save FileSystem.disk draft store files =
      (result, after, changed)) :
    (result = .ok (pageUrl store.baseUrl draft.key) ∧
        after = store.withPage draft ∧
        ∃ place, Saved store draft files changed place) ∨
      ∃ failure, result = .error failure ∧ failure.ofDisk = true := by
  cases saveRun_of_save saved with
  | unprepared parent => exact .inr ⟨_, rfl, ofDisk_createParent parent⟩
  | unwritten _ page => exact .inr ⟨_, rfl, ofDisk_writeText page⟩
  | unindexed _ _ index => exact .inr ⟨_, rfl, ofDisk_writeText index⟩
  | @saved first _ _ parent page index =>
      have above (spared : List String → Prop) : Keeps spared files first := by
        have kept : Keeps spared files _ :=
          keeps_createParent (store.pagePath draft.key) files
        rw [parent] at kept
        exact kept
      obtain ⟨_, stored⟩ | ⟨⟨_, ⟨⟩⟩, _⟩ := writeText_cases page
      obtain ⟨_, indexed⟩ | ⟨⟨_, ⟨⟩⟩, _⟩ := writeText_cases index
      exact .inl ⟨rfl, rfl, exists_saved above stored indexed⟩

end Save

/-! ## Opening again -/

section Load

variable {store : DiskStore} {root : String} {baseUrl : Option String}
  {files changed : FileSystem}

/-- Opening a store again gives the same store and changes nothing. -/
theorem load_again
    (opened : load FileSystem.disk root baseUrl files = (.ok store, changed)) :
    load FileSystem.disk root baseUrl changed = (.ok store, changed) := by
  obtain ⟨created, taken⟩ := load_eq_ok_iff.mp opened
  exact load_eq_ok_iff.mpr
    ⟨FileSystem.createDirectories_again created
      (.refl changed : Keeps (fun _ => False) changed changed), taken⟩

theorem load_of_read {text : String} {index : Assoc PageRecord}
    (created : FileSystem.createDirectories root files = (.ok (), files))
    (read : files.read (FilePath.join root indexFile) = .ok text)
    (decoded : PageRecord.indexOfText text = .ok index) :
    load FileSystem.disk root baseUrl files =
      (.ok { root, baseUrl, index }, files) := by
  have there : FileSystem.disk.isFile (FilePath.join root indexFile) files =
      true := FileSystem.isFile_of_read read
  refine load_eq_ok_iff.mpr ⟨created, takeUp_eq_ok.mpr ⟨rfl, rfl, ?_⟩⟩
  rw [if_pos there]
  exact ⟨text, read, decoded⟩

end Load

end DiskStore

end TagDoc
