import TagDoc.Proofs.DiskStore
import TagDoc.Proofs.FilePath
import TagDoc.Proofs.FileSystem
import TagDoc.Proofs.PageIndexFile
import TagDoc.Proofs.StoreRuns
import TagDoc.Store.Memory

/-!
# Both stores list what they save

A memory store remembers its pages.  A disk store writes its index beside the
pages, whose files never take the place of the index file, so whatever it lists
is listed again when the store is reopened.
-/

namespace TagDoc

/-! ## In memory -/

namespace MemoryStore

variable {δ : Type}

/-- The store lists a key with its URL. -/
def Lists (key : String) (state : MemoryStore × δ) : Prop :=
  Assoc.get? key state.1.index = some (pageUrl state.1.baseUrl key)

theorem lists_save (disk : Disk δ) (draft : PageDraft) {key : String}
    {state : MemoryStore × δ} (before : Lists key state ∨ key = draft.key) :
    Lists key ((workspace disk).save draft state).2 := by
  have listed : Lists key ((workspace disk).save draft state).2 ↔
      (Assoc.get? key (state.1.save draft).2.pages).map StoredPage.url =
        some (pageUrl state.1.baseUrl key) := by
    rw [← Assoc.get?_map]
    rfl
  rw [listed, save]
  dsimp only
  by_cases same : key = draft.key
  · rw [same, Assoc.get?_put_self]
    rfl
  · rw [Assoc.get?_put_of_ne _ _ same, ← Assoc.get?_map]
    exact before.resolve_right same

/-- Changes from outside do not touch the pages. -/
def Change (before after : MemoryStore × δ) : Prop :=
  after.1 = before.1

theorem lists_change {key : String} {before after : MemoryStore × δ}
    (change : Change before after) (listed : Lists key before) :
    Lists key after := by
  rw [Lists, change]
  exact listed

theorem publishes (disk : Disk δ) (baseUrl : Option String) :
    (workspace disk).Publishes (pageUrl baseUrl)
      (fun state => state.1.baseUrl = baseUrl) Lists where
  keepsSound :=
    { pages := fun _ sound => sound
      save := fun _ _ sound => sound }
  keepsListed key :=
    { pages := fun _ before => before
      save := fun draft _ before =>
        ⟨before.1, lists_save disk draft (.inl before.2)⟩ }
  saved draft state after url sound answer := by
    cases answer
    exact ⟨by rw [sound], lists_save disk draft (.inr rfl)⟩
  answers key state pages after sound listed answer := by
    cases answer
    rw [← sound]
    exact listed

end MemoryStore

/-! ## On disk -/

namespace DiskStore

open FileSystem (Naming)

/-- The place of a file that is called like the index file. -/
def IsIndexPlace (names : List String) : Prop :=
  ∃ above, names = above ++ [indexFile]

theorem naming_indexFile : Naming indexFile := by
  decide

theorem segments_indexPath (store : DiskStore) :
    ∃ above, FilePath.segments store.indexPath = above ++ [indexFile] :=
  FilePath.segments_join_plain store.root (by decide)

theorem read_index_of_keeps {store : DiskStore} {old new : FileSystem}
    {text : String} (keeps : FileSystem.Keeps IsIndexPlace old new)
    (read : old.read store.indexPath = .ok text) :
    new.read store.indexPath = .ok text := by
  obtain ⟨above, ends⟩ := segments_indexPath store
  exact keeps.read ends naming_indexFile (fun names => ⟨names, rfl⟩) read

/-- No page file is in the place of the index file. -/
theorem not_isIndexPlace_pagePath {store : DiskStore} {key name : String}
    {above : List String}
    (ends : FilePath.segments (store.pagePath key) = above ++ [name])
    (names : List String) : ¬ IsIndexPlace (names ++ [name]) := by
  intro isPlace
  obtain ⟨others, same⟩ := isPlace
  have plain : FilePath.Plain ".md" := by decide
  obtain ⟨before, final, whole⟩ :=
    FilePath.segments_join_append store.root key plain
  have last : name = final ++ ".md" :=
    (List.append_inj' (ends.symm.trans whole) rfl).2 |> List.singleton_inj.mp
  have called : name = indexFile :=
    (List.append_inj' same rfl).2 |> List.singleton_inj.mp
  have letters := congrArg (fun text : String => text.toList.getLast?)
    (last.symm.trans called)
  simp [indexFile] at letters

theorem writeText_cases {path text : String} {files changed : FileSystem}
    {result : Except Failure Unit}
    (written : writeText FileSystem.disk path text files = (result, changed)) :
    (result = .ok () ∧ files.write path text = .ok changed) ∨
      (∃ failure, result = .error failure) ∧ changed = files := by
  unfold writeText at written
  cases answer : files.write path text with
  | ok after =>
      simp only [FileSystem.disk, answer] at written
      cases written
      exact .inl ⟨rfl, rfl⟩
  | error error =>
      simp only [FileSystem.disk, answer] at written
      cases written
      exact .inr ⟨⟨_, rfl⟩, rfl⟩

theorem keeps_createParent {spared : List String → Prop} (path : String)
    (files : FileSystem) :
    FileSystem.Keeps spared files
      (createParent FileSystem.disk path files).2 := by
  rw [createParent_eq]
  split
  · exact .refl files
  · next parent _ => exact FileSystem.keeps_createDirectories files parent

/-- A save fails before the page enters the index, fails to write the index,
or leaves an index file that holds the new index.  Until the index is written
its file keeps its text. -/
inductive SaveOutcome (draft : PageDraft) (store : DiskStore)
    (files : FileSystem) :
    Except Failure String → DiskStore → FileSystem → Prop where
  | unwritten {failure : Failure} {changed : FileSystem} :
      FileSystem.Keeps IsIndexPlace files changed →
      SaveOutcome draft store files (.error failure) store changed
  | unindexed {failure : Failure} {changed : FileSystem} :
      FileSystem.Keeps IsIndexPlace files changed →
      SaveOutcome draft store files (.error failure) (store.withPage draft)
        changed
  | saved {changed : FileSystem} :
      changed.read store.indexPath =
        .ok (PageRecord.indexText (store.withPage draft).index) →
      SaveOutcome draft store files (.ok (pageUrl store.baseUrl draft.key))
        (store.withPage draft) changed

theorem keeps_writeText {spared : List String → Prop} {path text : String}
    {files changed : FileSystem} {result : Except Failure Unit}
    (other : ∀ above name, FilePath.segments path = above ++ [name] →
      ∀ names, ¬ spared (names ++ [name]))
    (written : writeText FileSystem.disk path text files = (result, changed)) :
    FileSystem.Keeps spared files changed := by
  rcases writeText_cases written with ⟨_, stored⟩ | ⟨_, rfl⟩
  · exact FileSystem.keeps_write stored other
  · exact .refl _

theorem saveOutcome_of_save {draft : PageDraft} {store after : DiskStore}
    {files changed : FileSystem} {result : Except Failure String}
    (saved : save FileSystem.disk draft store files =
      (result, after, changed)) :
    SaveOutcome draft store files result after changed := by
  have created : FileSystem.Keeps IsIndexPlace files _ :=
    keeps_createParent (store.pagePath draft.key) files
  have stored {first second : FileSystem} {written : Except Failure Unit}
      (page : writeText FileSystem.disk (store.pagePath draft.key)
        draft.content first = (written, second)) :
      FileSystem.Keeps IsIndexPlace first second :=
    keeps_writeText (fun _ _ ends => not_isIndexPlace_pagePath ends) page
  cases saveRun_of_save saved with
  | unprepared parent =>
      rw [parent] at created
      exact .unwritten created
  | unwritten parent page =>
      rw [parent] at created
      exact .unwritten (created.trans (stored page))
  | unindexed parent page index =>
      rw [parent] at created
      rcases writeText_cases index with ⟨⟨⟩, _⟩ | ⟨_, rfl⟩
      exact .unindexed (created.trans (stored page))
  | saved parent page index =>
      rcases writeText_cases index with ⟨_, written⟩ | ⟨⟨_, ⟨⟩⟩, _⟩
      exact .saved (FileSystem.read_of_write written)

/-- A store with a base URL that lists each key once. -/
structure Sound (baseUrl : Option String) (state : DiskStore × FileSystem) :
    Prop where
  baseUrl : state.1.baseUrl = baseUrl
  distinct : (Assoc.keys state.1.index).Nodup

/-- An index lists a key with its URL. -/
def IndexLists (baseUrl : Option String) (key : String)
    (index : Assoc PageRecord) : Prop :=
  (Assoc.get? key index).map PageRecord.url = some (pageUrl baseUrl key)

/-- The store lists a key, and so does the index that a later run takes up
from the disk. -/
structure Lists (key : String) (state : DiskStore × FileSystem) : Prop where
  inMemory : IndexLists state.1.baseUrl key state.1.index
  onDisk : ∃ index,
    state.2.read state.1.indexPath = .ok (PageRecord.indexText index) ∧
      (Assoc.keys index).Nodup ∧ IndexLists state.1.baseUrl key index

theorem indexLists_withPage (draft : PageDraft) {store : DiskStore}
    {key : String}
    (before : IndexLists store.baseUrl key store.index ∨ key = draft.key) :
    IndexLists store.baseUrl key (store.withPage draft).index := by
  rw [IndexLists, withPage]
  by_cases same : key = draft.key
  · rw [same, Assoc.get?_put_self]
    rfl
  · rw [Assoc.get?_put_of_ne _ _ same]
    exact before.resolve_right same

theorem Sound.withPage {baseUrl : Option String} {store : DiskStore}
    {files changed : FileSystem} (sound : Sound baseUrl (store, files))
    (draft : PageDraft) : Sound baseUrl (store.withPage draft, changed) where
  baseUrl := sound.baseUrl
  distinct := Assoc.nodup_keys_put _ _ sound.distinct

theorem SaveOutcome.sound {draft : PageDraft} {store after : DiskStore}
    {files changed : FileSystem} {result : Except Failure String}
    {baseUrl : Option String}
    (outcome : SaveOutcome draft store files result after changed)
    (sound : Sound baseUrl (store, files)) : Sound baseUrl (after, changed) := by
  cases outcome with
  | unwritten kept => exact ⟨sound.baseUrl, sound.distinct⟩
  | unindexed kept => exact sound.withPage draft
  | saved read => exact sound.withPage draft

theorem SaveOutcome.lists {draft : PageDraft} {store after : DiskStore}
    {files changed : FileSystem} {result : Except Failure String}
    {baseUrl : Option String} {key : String}
    (outcome : SaveOutcome draft store files result after changed)
    (sound : Sound baseUrl (store, files)) (listed : Lists key (store, files)) :
    Lists key (after, changed) := by
  obtain ⟨inMemory, index, read, distinct, onDisk⟩ := listed
  cases outcome with
  | unwritten kept =>
      exact ⟨inMemory, index, read_index_of_keeps kept read, distinct, onDisk⟩
  | unindexed kept =>
      exact ⟨indexLists_withPage draft (.inl inMemory), index,
        read_index_of_keeps kept read, distinct, onDisk⟩
  | saved written =>
      have listed := indexLists_withPage draft (.inl inMemory)
      exact ⟨listed, _, written, Assoc.nodup_keys_put _ _ sound.distinct,
        listed⟩

theorem SaveOutcome.lists_saved {draft : PageDraft} {store after : DiskStore}
    {files changed : FileSystem} {result : Except Failure String}
    {baseUrl : Option String} {url : String}
    (outcome : SaveOutcome draft store files result after changed)
    (sound : Sound baseUrl (store, files)) (answer : result = .ok url) :
    url = pageUrl baseUrl draft.key ∧ Lists draft.key (after, changed) := by
  cases outcome with
  | unwritten kept => cases answer
  | unindexed kept => cases answer
  | saved written =>
      have listed : IndexLists store.baseUrl draft.key
          (store.withPage draft).index := indexLists_withPage draft (.inr rfl)
      have same : pageUrl store.baseUrl draft.key = url :=
        Except.ok.inj answer
      refine ⟨?_, listed, _, written,
        Assoc.nodup_keys_put _ _ sound.distinct, listed⟩
      rw [← same, ← sound.baseUrl]

-- Unfolding `save` as well would make this comparison run away.
theorem save_workspace {δ : Type} (disk : Disk δ) (draft : PageDraft)
    (store : DiskStore) (files : δ) :
    (workspace disk).save draft (store, files) =
      save disk draft store files := by
  rw [workspace]

theorem exists_saveOutcome (draft : PageDraft) (store : DiskStore)
    (files : FileSystem) :
    ∃ result after changed,
      (workspace FileSystem.disk).save draft (store, files) =
        (result, after, changed) ∧
      SaveOutcome draft store files result after changed := by
  rw [save_workspace]
  cases saved : save FileSystem.disk draft store files with
  | mk result rest =>
      obtain ⟨after, changed⟩ := rest
      exact ⟨result, after, changed, rfl, saveOutcome_of_save saved⟩

theorem keeps_sound (baseUrl : Option String) :
    (workspace FileSystem.disk).Keeps (Sound baseUrl) where
  pages _ sound := sound
  save := by
    intro draft state sound
    obtain ⟨store, files⟩ := state
    obtain ⟨result, after, changed, saved, outcome⟩ :=
      exists_saveOutcome draft store files
    rw [saved]
    exact outcome.sound sound

theorem keeps_lists (baseUrl : Option String) (key : String) :
    (workspace FileSystem.disk).Keeps fun state =>
      Sound baseUrl state ∧ Lists key state where
  pages _ before := before
  save := by
    intro draft state before
    obtain ⟨store, files⟩ := state
    obtain ⟨sound, listed⟩ := before
    obtain ⟨result, after, changed, saved, outcome⟩ :=
      exists_saveOutcome draft store files
    rw [saved]
    exact ⟨outcome.sound sound, outcome.lists sound listed⟩

theorem publishes (baseUrl : Option String) :
    (workspace FileSystem.disk).Publishes (pageUrl baseUrl) (Sound baseUrl)
      Lists where
  keepsSound := keeps_sound baseUrl
  keepsListed := keeps_lists baseUrl
  saved := by
    intro draft state later url sound answer
    obtain ⟨store, files⟩ := state
    obtain ⟨result, after, changed, saved, outcome⟩ :=
      exists_saveOutcome draft store files
    rw [saved] at answer
    obtain ⟨same, rfl⟩ := Prod.mk.inj answer
    exact outcome.lists_saved sound same
  answers := by
    intro key state pages after sound listed answer
    obtain ⟨store, files⟩ := state
    have same : store.pageIndex = pages :=
      Except.ok.inj (congrArg Prod.fst answer)
    rw [← same, ← sound.baseUrl, pageIndex, Assoc.get?_map]
    exact listed.inMemory

/-! ## Reopening -/

/-- Between two passes the store may be reopened, and files other than that of
the index may change. -/
inductive Change (before : DiskStore × FileSystem) :
    DiskStore × FileSystem → Prop where
  | reopened {again : DiskStore} :
      (load FileSystem.disk before.1.root before.1.baseUrl before.2).1 =
        .ok again →
      Change before
        (again,
          (load FileSystem.disk before.1.root before.1.baseUrl before.2).2)
  | edited {files : FileSystem} :
      files.read before.1.indexPath = before.2.read before.1.indexPath →
      Change before (before.1, files)

/-- An opened store has the index that its file holds. -/
theorem load_eq_ok {root : String} {baseUrl : Option String}
    {store : DiskStore} {files changed : FileSystem}
    (opened : load FileSystem.disk root baseUrl files = (.ok store, changed)) :
    FileSystem.Keeps IsIndexPlace files changed ∧
      store.root = root ∧ Sound baseUrl (store, changed) ∧
      ∀ text, changed.read (FilePath.join root indexFile) = .ok text →
        PageRecord.indexOfText text = .ok store.index := by
  obtain ⟨made, taken⟩ := load_eq_ok_iff.mp opened
  have created : FileSystem.Keeps IsIndexPlace files
      (FileSystem.disk.createDirectories root files).2 :=
    FileSystem.keeps_createDirectories files root
  rw [made] at created
  obtain ⟨same, base, index⟩ := takeUp_eq_ok.mp taken
  split at index
  · obtain ⟨text, found, decoded⟩ := index
    refine ⟨created, same, ⟨base, PageRecord.nodup_of_indexOfText decoded⟩, ?_⟩
    intro other read
    have text_eq : text = other := Except.ok.inj (found.symm.trans read)
    rw [← text_eq]
    exact decoded
  · next absent =>
      have distinct : (Assoc.keys store.index).Nodup := by
        rw [index]
        exact List.nodup_nil
      refine ⟨created, same, ⟨base, distinct⟩, ?_⟩
      intro text found
      exact (absent (FileSystem.isFile_of_read found)).elim

theorem load_fst_eq_ok {root : String} {baseUrl : Option String}
    {store : DiskStore} {files : FileSystem}
    (opened : (load FileSystem.disk root baseUrl files).1 = .ok store) :
    let changed := (load FileSystem.disk root baseUrl files).2
    FileSystem.Keeps IsIndexPlace files changed ∧
      store.root = root ∧ Sound baseUrl (store, changed) ∧
      ∀ text, changed.read (FilePath.join root indexFile) = .ok text →
        PageRecord.indexOfText text = .ok store.index := by
  cases answer : load FileSystem.disk root baseUrl files with
  | mk result changed =>
      rw [answer] at opened
      cases opened
      exact load_eq_ok answer

theorem sound_change {baseUrl : Option String}
    {before after : DiskStore × FileSystem} (change : Change before after)
    (sound : Sound baseUrl before) : Sound baseUrl after := by
  cases change with
  | reopened opened =>
      obtain ⟨_, _, again, _⟩ := load_fst_eq_ok opened
      exact ⟨again.baseUrl.trans sound.baseUrl, again.distinct⟩
  | edited same => exact ⟨sound.baseUrl, sound.distinct⟩

theorem lists_change {key : String} {before after : DiskStore × FileSystem}
    (change : Change before after) (listed : Lists key before) :
    Lists key after := by
  obtain ⟨inMemory, index, read, distinct, onDisk⟩ := listed
  cases change with
  | @reopened again opened =>
      obtain ⟨kept, root, sound, taken⟩ := load_fst_eq_ok opened
      have still := read_index_of_keeps kept read
      have same : again.index = index :=
        ((PageRecord.indexOfText_indexText distinct).mp (taken _ still)).1
      rw [← sound.baseUrl] at onDisk
      refine ⟨same ▸ onDisk, index, ?_, distinct, onDisk⟩
      rw [indexPath, root]
      exact still
  | edited same =>
      exact ⟨inMemory, index, same.trans read, distinct, onDisk⟩

end DiskStore

end TagDoc
