import TagDoc.Store.Disk

/-!
# How a disk store saves and opens

A save goes through three operations of the disk, and ends with the first that
is refused.  Opening creates the directory and takes up the index that is there
then.  Both are said once for all disks.
-/

namespace TagDoc.DiskStore

variable {δ : Type} {disk : Disk δ}

/-- The path of the index file. -/
def indexPath (store : DiskStore) : String :=
  FilePath.join store.root indexFile

/-- The store with a page in its index. -/
def withPage (store : DiskStore) (draft : PageDraft) : DiskStore :=
  { store with
    index := store.index.put draft.key
      ⟨pageUrl store.baseUrl draft.key, draft.order⟩ }

/-! ## Operations of the disk -/

section Operations

variable {path text : String} {files changed : δ}

theorem createParent_eq :
    createParent disk path files =
      match FilePath.parent? path with
      | none => (.ok (), files)
      | some parent =>
          let made := disk.createDirectories parent files
          (made.1.mapError (.createDirectory parent), made.2) := by
  rw [createParent]
  cases FilePath.parent? path with
  | none => rfl
  | some parent =>
      dsimp only
      cases disk.createDirectories parent files with
      | mk made after =>
          cases made with
          | error error => rfl
          | ok _ => rfl

theorem writeText_eq :
    writeText disk path text files =
      let written := disk.write path text files
      (written.1.mapError (.write path), written.2) := by
  rw [writeText]
  cases disk.write path text files with
  | mk written after =>
      cases written with
      | error error => rfl
      | ok _ => rfl

theorem write_of_writeText
    (ran : writeText disk path text files = (.ok (), changed)) :
    disk.write path text files = (.ok (), changed) := by
  rw [writeText_eq] at ran
  cases answer : disk.write path text files with
  | mk written after =>
      rw [answer] at ran
      cases written with
      | error error => cases ran
      | ok _ =>
          cases ran
          rfl

theorem write_of_writeText_error {failure : Failure}
    (ran : writeText disk path text files = (.error failure, changed)) :
    ∃ error, failure = .write path error ∧
      disk.write path text files = (.error error, changed) := by
  rw [writeText_eq] at ran
  cases answer : disk.write path text files with
  | mk written after =>
      rw [answer] at ran
      cases written with
      | error error =>
          cases ran
          exact ⟨error, rfl, rfl⟩
      | ok _ => cases ran

end Operations

/-! ## Saving -/

/-- How a save ends: with the directory of the page, with the page file, with
the index file, or well. -/
inductive SaveRun (disk : Disk δ) (draft : PageDraft) (store : DiskStore)
    (files : δ) : Except Failure String → DiskStore → δ → Prop where
  | unprepared {failure : Failure} {changed : δ} :
      createParent disk (store.pagePath draft.key) files =
        (.error failure, changed) →
      SaveRun disk draft store files (.error failure) store changed
  | unwritten {failure : Failure} {first changed : δ} :
      createParent disk (store.pagePath draft.key) files = (.ok (), first) →
      writeText disk (store.pagePath draft.key) draft.content first =
        (.error failure, changed) →
      SaveRun disk draft store files (.error failure) store changed
  | unindexed {failure : Failure} {first second changed : δ} :
      createParent disk (store.pagePath draft.key) files = (.ok (), first) →
      writeText disk (store.pagePath draft.key) draft.content first =
        (.ok (), second) →
      writeText disk store.indexPath
          (PageRecord.indexText (store.withPage draft).index) second =
        (.error failure, changed) →
      SaveRun disk draft store files (.error failure) (store.withPage draft)
        changed
  | saved {first second changed : δ} :
      createParent disk (store.pagePath draft.key) files = (.ok (), first) →
      writeText disk (store.pagePath draft.key) draft.content first =
        (.ok (), second) →
      writeText disk store.indexPath
          (PageRecord.indexText (store.withPage draft).index) second =
        (.ok (), changed) →
      SaveRun disk draft store files (.ok (pageUrl store.baseUrl draft.key))
        (store.withPage draft) changed

theorem saveRun_of_save {draft : PageDraft} {store after : DiskStore}
    {files changed : δ} {result : Except Failure String}
    (saved : save disk draft store files = (result, after, changed)) :
    SaveRun disk draft store files result after changed := by
  unfold save at saved
  dsimp only at saved
  cases parent : createParent disk (store.pagePath draft.key) files with
  | mk made first =>
      rw [parent] at saved
      cases made with
      | error failure =>
          cases saved
          exact .unprepared parent
      | ok _ =>
          dsimp only at saved
          cases page : writeText disk (store.pagePath draft.key) draft.content
              first with
          | mk written second =>
              rw [page] at saved
              cases written with
              | error failure =>
                  cases saved
                  exact .unwritten parent page
              | ok _ =>
                  dsimp only at saved
                  split at saved
                  · next failure third index =>
                      cases saved
                      exact .unindexed parent page index
                  · next third index =>
                      cases saved
                      exact .saved parent page index

theorem baseUrl_save (disk : Disk δ) (draft : PageDraft) (store : DiskStore)
    (files : δ) :
    (save disk draft store files).2.1.baseUrl = store.baseUrl := by
  cases saved : save disk draft store files with
  | mk result rest =>
      obtain ⟨after, changed⟩ := rest
      cases saveRun_of_save saved <;> rfl

theorem url_save {draft : PageDraft} {store : DiskStore} {files : δ}
    {url : String} (saved : (save disk draft store files).1 = .ok url) :
    url = pageUrl store.baseUrl draft.key := by
  cases answer : save disk draft store files with
  | mk result rest =>
      obtain ⟨after, changed⟩ := rest
      rw [answer] at saved
      cases saveRun_of_save answer with
      | saved => exact (Except.ok.inj saved).symm
      | unprepared => cases saved
      | unwritten => cases saved
      | unindexed => cases saved

/-! ## Opening -/

/-- The store that is taken up from a directory that is there. -/
def takeUp (disk : Disk δ) (root : String) (baseUrl : Option String)
    (files : δ) : Except Failure DiskStore :=
  let path := FilePath.join root indexFile
  if disk.isFile path files then
    match disk.read path files with
    | .error error => .error (.read path error)
    | .ok text =>
        match PageRecord.indexOfText text with
        | .error _ => .error (.invalidIndex path)
        | .ok index => .ok { root, baseUrl, index }
  else .ok { root, baseUrl }

variable {store : DiskStore} {root : String} {baseUrl : Option String}
  {files changed : δ}

theorem takeUp_eq_ok :
    takeUp disk root baseUrl files = .ok store ↔
      store.root = root ∧ store.baseUrl = baseUrl ∧
        if disk.isFile (FilePath.join root indexFile) files then
          ∃ text, disk.read (FilePath.join root indexFile) files = .ok text ∧
            PageRecord.indexOfText text = .ok store.index
        else store.index = [] := by
  rw [takeUp]
  by_cases there : disk.isFile (FilePath.join root indexFile) files = true
  · rw [if_pos there, if_pos there]
    constructor
    · intro taken
      split at taken
      · cases taken
      · next text read =>
          split at taken
          · cases taken
          · next index decoded =>
              cases taken
              exact ⟨rfl, rfl, text, read, decoded⟩
    · rintro ⟨rfl, rfl, text, read, decoded⟩
      rw [read]
      dsimp only
      rw [decoded]
  · rw [if_neg there, if_neg there]
    constructor
    · intro taken
      cases taken
      exact ⟨rfl, rfl, rfl⟩
    · rintro ⟨rfl, rfl, empty⟩
      rw [← empty]

theorem load_of_created
    (created : disk.createDirectories root files = (.ok (), changed)) :
    load disk root baseUrl files =
      (takeUp disk root baseUrl changed, changed) := by
  rw [load, created, takeUp]
  dsimp only
  by_cases there : disk.isFile (FilePath.join root indexFile) changed = true
  · rw [if_pos there, if_pos there]
    cases disk.read (FilePath.join root indexFile) changed with
    | error error => rfl
    | ok text =>
        dsimp only
        cases PageRecord.indexOfText text with
        | error fault => rfl
        | ok index => rfl
  · rw [if_neg there, if_neg there]

/-- A store is opened where its directory could be created. -/
theorem load_eq_ok_iff :
    load disk root baseUrl files = (.ok store, changed) ↔
      disk.createDirectories root files = (.ok (), changed) ∧
        takeUp disk root baseUrl changed = .ok store := by
  cases created : disk.createDirectories root files with
  | mk made after =>
      cases made with
      | error error => simp [load, created]
      | ok _ =>
          rw [load_of_created created, Prod.mk.injEq, Prod.mk.injEq,
            and_iff_right rfl, and_comm]
          exact and_congr_right fun same => by rw [same]

end TagDoc.DiskStore
