import TagDoc.Proofs.DiskSaves
import TagDoc.Proofs.FaultyDisks
import TagDoc.Proofs.Overwriting

/-!
# What failed saves leave

A save may fail at each of its steps, and so may opening a store.  A page enters
the index after its file was written, and the index file is written last; so
whatever fails, the indexes of the open stores and the index file list written
pages only: `listed_pages_written`.
-/

namespace TagDoc

/-- The path of the file of a page. -/
def pageFile (root key : String) : String :=
  FilePath.join root (key ++ ".md")

/-- The path of the index file. -/
def indexFileIn (root : String) : String :=
  FilePath.join root indexFile

/-! ## Stores on one directory -/

/-- What is done on a directory: one more store is opened, or one of the open
stores saves a page. -/
inductive StoreCall where
  | openStore (baseUrl : Option String)
  | save (number : Nat) (draft : PageDraft)
deriving DecidableEq, Repr

/-- The page that is to be saved. -/
def StoreCall.draft? : StoreCall → Option PageDraft
  | .openStore _ => none
  | .save _ draft => some draft

/-- The pages that calls are to save. -/
def draftsOf (calls : List StoreCall) : List PageDraft :=
  calls.filterMap StoreCall.draft?

/-- The stores that are open on a directory, and the disk. -/
structure OpenStores (δ : Type) where
  stores : List DiskStore
  files : δ

namespace OpenStores

variable {δ : Type}

def call (disk : Disk δ) (root : String) (state : OpenStores δ) :
    StoreCall → OpenStores δ
  | .openStore baseUrl =>
      match DiskStore.load disk root baseUrl state.files with
      | (.error _, files) => { state with files }
      | (.ok store, files) => { stores := state.stores ++ [store], files }
  | .save number draft =>
      match state.stores[number]? with
      | none => state
      | some store =>
          let saved := DiskStore.save disk draft store state.files
          { stores := state.stores.set number saved.2.1, files := saved.2.2 }

/-- Calls one after the other, whatever they answer. -/
def callAll (disk : Disk δ) (root : String) (calls : List StoreCall)
    (state : OpenStores δ) : OpenStores δ :=
  calls.foldl (call disk root) state

end OpenStores

namespace DiskStore

open FileSystem (Keeps SameFiles)

/-! ## Written pages -/

/-- The file of a page has the content of a page that was written to it in
full. -/
def LeadsToPage (root : String) (saved : List PageDraft) (files : FileSystem)
    (written : Assoc String) (key : String) : Prop :=
  ∃ draft ∈ saved,
    Assoc.get? (pageFile root draft.key) written = some draft.content ∧
      (∃ place, files.locate (pageFile root draft.key) = .ok place ∧
        files.locate (pageFile root key) = .ok place) ∧
      files.read (pageFile root key) = .ok draft.content

theorem leadsToPage_iff {root key : String} {saved : List PageDraft}
    {files : FileSystem} {written : Assoc String} :
    LeadsToPage root saved files written key ↔
      ∃ draft ∈ saved, ∃ place,
        Assoc.get? (pageFile root draft.key) written = some draft.content ∧
          files.locate (pageFile root draft.key) = .ok place ∧
          files.locate (pageFile root key) = .ok place ∧
          files.root.at? place = some (.file (.readable draft.content)) := by
  constructor
  · rintro ⟨draft, among, text, ⟨place, own, leads⟩, read⟩
    obtain ⟨found, there, content⟩ := FileSystem.read_eq_ok.mp read
    have same : found = place := Except.ok.inj (there.symm.trans leads)
    exact ⟨draft, among, place, text, own, leads, same ▸ content⟩
  · rintro ⟨draft, among, place, text, own, leads, content⟩
    exact ⟨draft, among, text, ⟨place, own, leads⟩,
      FileSystem.read_eq_ok.mpr ⟨place, leads, content⟩⟩

/-- An index that can be written and read again, and lists written pages
only. -/
structure ListsWritten (root : String) (written : Assoc String)
    (index : Assoc PageRecord) : Prop where
  distinct : (Assoc.keys index).Nodup
  small : ∀ entry ∈ index, entry.2.order ≤ Json.Numeral.limit
  pages : ∀ key ∈ Assoc.keys index, pageFile root key ∈ Assoc.keys written

/-- The files have what was written: written pages are found, and the index
file, if it is there, lists written pages only. -/
structure Backed (root : String) (saved : List PageDraft)
    (files : FileSystem) (written : Assoc String) : Prop where
  pages : ∀ key, pageFile root key ∈ Assoc.keys written →
    LeadsToPage root saved files written key
  index : ∀ content,
    files.root.at? (files.names (indexFileIn root)) = some (.file content) →
      ∃ index, content = .readable (PageRecord.indexText index) ∧
        ListsWritten root written index

section Places

variable {root key : String} {files : FileSystem} {place : List String}

theorem isIndexPlace_names (root : String) (files : FileSystem) :
    IsIndexPlace (files.names (indexFileIn root)) := by
  obtain ⟨above, ends⟩ := segments_indexPath { root }
  have ends : FilePath.segments (indexFileIn root) = above ++ [indexFile] := ends
  have named : FilePath.namedSegments (indexFileIn root) =
      (above.filter fun segment => segment != "" && segment != ".") ++
        [indexFile] := by
    rw [FilePath.namedSegments, ends, List.filter_append]
    rfl
  rw [FileSystem.names, named, List.foldl_append]
  exact ⟨_, rfl⟩

theorem not_isIndexPlace_of_pageFile
    (located : files.locate (pageFile root key) = .ok place) :
    ¬ IsIndexPlace place := by
  have located : files.locate (({ root } : DiskStore).pagePath key) =
      .ok place := located
  exact not_isIndexPlace_of_locate located

theorem pageFile_ne_indexFile (root key : String) :
    pageFile root key ≠ indexFileIn root := by
  intro same
  obtain ⟨above, ends⟩ := segments_indexPath { root }
  have page : FilePath.segments (({ root } : DiskStore).pagePath key) =
      above ++ [indexFile] := (congrArg FilePath.segments same).trans ends
  exact not_isIndexPlace_pagePath page [] ⟨[], rfl⟩

end Places

theorem ListsWritten.mono {root : String} {written more : Assoc String}
    {index : Assoc PageRecord} (lists : ListsWritten root written index)
    (keeps : ∀ path ∈ Assoc.keys written, path ∈ Assoc.keys more) :
    ListsWritten root more index where
  distinct := lists.distinct
  small := lists.small
  pages key member := keeps _ (lists.pages key member)

theorem ListsWritten.withPage {root : String} {written : Assoc String}
    {store : DiskStore} {draft : PageDraft}
    (lists : ListsWritten root written store.index)
    (small : draft.order ≤ Json.Numeral.limit)
    (page : pageFile root draft.key ∈ Assoc.keys written) :
    ListsWritten root written (store.withPage draft).index where
  distinct := Assoc.nodup_keys_put _ _ lists.distinct
  small := by
    intro entry member
    rcases Assoc.mem_put member with rfl | old
    · exact small
    · exact lists.small entry old
  pages := by
    intro key member
    rcases Assoc.mem_keys_put.mp member with old | rfl
    · exact lists.pages key old
    · exact page

theorem ListsWritten.indexOfText {root : String} {written : Assoc String}
    {index : Assoc PageRecord} (lists : ListsWritten root written index) :
    PageRecord.indexOfText (PageRecord.indexText index) = .ok index :=
  (PageRecord.indexOfText_indexText lists.distinct).mpr ⟨rfl, lists.small⟩

/-! ## Changes of files -/

namespace Backed

variable {root : String} {saved : List PageDraft} {files changed : FileSystem}
  {written : Assoc String}

theorem sameFiles (backed : Backed root saved files written)
    (same : SameFiles files changed) : Backed root saved changed written where
  pages key member := by
    obtain ⟨draft, among, place, text, own, leads, found⟩ :=
      leadsToPage_iff.mp (backed.pages key member)
    have keeps := same.keeps fun _ => True
    exact leadsToPage_iff.mpr ⟨draft, among, place, text, keeps.locate own,
      keeps.locate leads, keeps.files _ _ trivial found⟩
  index content found := by
    rw [(same.keeps fun _ => True).names] at found
    exact backed.index content (same.file _ _ found)

/-- A page that is written in full replaces what its file had. -/
theorem writePage (backed : Backed root saved files written)
    {draft : PageDraft} (among : draft ∈ saved)
    (stored : files.write (pageFile root draft.key) draft.content =
      .ok changed) :
    Backed root saved changed
      (written.put (pageFile root draft.key) draft.content) where
  pages key member := by
    obtain ⟨place, located, content, others⟩ :=
      FileSystem.place_of_write stored
    refine leadsToPage_iff.mpr ?_
    rcases Assoc.mem_keys_put.mp member with old | new
    · obtain ⟨page, known, own, text, shares, leads, found⟩ :=
        leadsToPage_iff.mp (backed.pages key old)
      -- The written file is the one to which the key led, or another.
      by_cases same : own = place
      · subst same
        exact ⟨draft, among, own, Assoc.get?_put_self _ _ _, located,
          others.locate leads, content⟩
      · have other : pageFile root page.key ≠ pageFile root draft.key := by
          intro equal
          have there := others.locate shares
          rw [equal, located] at there
          exact same (Except.ok.inj there).symm
        refine ⟨page, known, own, ?_, others.locate shares,
          others.locate leads, others.files _ _ same found⟩
        rw [Assoc.get?_put_of_ne _ _ other]
        exact text
    · rw [new]
      exact ⟨draft, among, place, Assoc.get?_put_self _ _ _, located, located,
        content⟩
  index content found := by
    obtain ⟨place, located, _, others⟩ := FileSystem.place_of_write stored
    rcases FileSystem.file_of_write stored found with ⟨here, _⟩ | before
    · rw [← FileSystem.names_of_locate located] at here
      exact (not_isIndexPlace_of_pageFile located
        (here ▸ isIndexPlace_names root changed)).elim
    · rw [others.names] at before
      obtain ⟨index, text, lists⟩ := backed.index content before
      exact ⟨index, text, lists.mono fun path member =>
        Assoc.mem_keys_put.mpr (.inl member)⟩

/-- A good index that is written in full leaves the pages alone. -/
theorem writeIndex (backed : Backed root saved files written)
    {index : Assoc PageRecord} (lists : ListsWritten root written index)
    (stored : files.write (indexFileIn root) (PageRecord.indexText index) =
      .ok changed) :
    Backed root saved changed
      (written.put (indexFileIn root) (PageRecord.indexText index)) where
  pages key member := by
    obtain ⟨place, located, _, others⟩ := FileSystem.place_of_write stored
    have old := (Assoc.mem_keys_put.mp member).resolve_right
      (pageFile_ne_indexFile root key)
    obtain ⟨page, known, own, text, shares, leads, found⟩ :=
      leadsToPage_iff.mp (backed.pages key old)
    have apart : own ≠ place := by
      rintro rfl
      refine not_isIndexPlace_of_pageFile leads ?_
      rw [FileSystem.names_of_locate located]
      exact isIndexPlace_names root changed
    refine leadsToPage_iff.mpr ⟨page, known, own, ?_, others.locate shares,
      others.locate leads, others.files _ _ apart found⟩
    rw [Assoc.get?_put_of_ne _ _ (pageFile_ne_indexFile root page.key)]
    exact text
  index content found := by
    have more : ∀ path ∈ Assoc.keys written, path ∈ Assoc.keys
        (written.put (indexFileIn root) (PageRecord.indexText index)) :=
      fun path member => Assoc.mem_keys_put.mpr (.inl member)
    obtain ⟨_, _, _, others⟩ := FileSystem.place_of_write stored
    rcases FileSystem.file_of_write stored found with ⟨_, rfl⟩ | before
    · exact ⟨index, rfl, lists.mono more⟩
    · rw [others.names] at before
      obtain ⟨known, text, earlier⟩ := backed.index content before
      exact ⟨known, text, earlier.mono more⟩

end Backed

/-! ## Steps on a faulty disk -/

section Steps

variable {δ : Type} {disk : Disk δ} {view : δ → FileSystem} {root : String}
  {saved : List PageDraft} {files changed : δ × Trace}

/-- What a step leaves: the files still have what was written, and nothing that
was written before is taken back. -/
structure Leaves (view : δ → FileSystem) (root : String)
    (saved : List PageDraft) (files changed : δ × Trace) : Prop where
  backed : Backed root saved (view changed.1) changed.2.written
  keeps : ∀ path ∈ Assoc.keys files.2.written,
    path ∈ Assoc.keys changed.2.written

theorem Leaves.of_eq
    (backed : Backed root saved (view files.1) files.2.written)
    (same : view changed.1 = view files.1 ∧
      changed.2.written = files.2.written) :
    Leaves view root saved files changed := by
  obtain ⟨shown, written⟩ := same
  exact ⟨by rw [shown, written]; exact backed, by rw [written]; simp⟩

theorem leaves_createDirectories (faulty : disk.Faulty view) (path : String)
    (backed : Backed root saved (view files.1) files.2.written) :
    Leaves view root saved files
      (disk.traced.createDirectories path files).2 := by
  obtain ⟨same, written⟩ := faulty.traced_directories path files
  exact ⟨by rw [written]; exact backed.sameFiles same, by rw [written]; simp⟩

theorem leaves_createParent (faulty : disk.Faulty view) {path : String}
    {made : Except Failure Unit}
    (backed : Backed root saved (view files.1) files.2.written)
    (ran : createParent disk.traced path files = (made, changed)) :
    Leaves view root saved files changed := by
  rw [createParent_eq] at ran
  split at ran
  · cases ran
    exact .of_eq backed ⟨rfl, rfl⟩
  · next parent _ =>
      cases ran
      exact leaves_createDirectories faulty parent backed

theorem leaves_refused (faulty : disk.Faulty view) {path text : String}
    {failure : Failure}
    (backed : Backed root saved (view files.1) files.2.written)
    (ran : writeText disk.traced path text files =
      (.error failure, changed)) :
    Leaves view root saved files changed := by
  obtain ⟨error, _, refused⟩ := write_of_writeText_error ran
  exact .of_eq backed (faulty.traced_refused refused)

theorem written_of_writeText (faulty : disk.Faulty view) {path text : String}
    (ran : writeText disk.traced path text files = (.ok (), changed)) :
    (view files.1).write path text = .ok (view changed.1) ∧
      changed.2.written = files.2.written.put path text :=
  faulty.traced_written (write_of_writeText ran)

theorem leaves_writePage (faulty : disk.Faulty view) {draft : PageDraft}
    (among : draft ∈ saved)
    (backed : Backed root saved (view files.1) files.2.written)
    (ran : writeText disk.traced (pageFile root draft.key) draft.content
      files = (.ok (), changed)) :
    Leaves view root saved files changed ∧
      pageFile root draft.key ∈ Assoc.keys changed.2.written := by
  obtain ⟨stored, written⟩ := written_of_writeText faulty ran
  rw [written]
  refine ⟨⟨?_, ?_⟩, Assoc.mem_keys_put.mpr (.inr rfl)⟩
  · rw [written]
    exact backed.writePage among stored
  · rw [written]
    exact fun path member => Assoc.mem_keys_put.mpr (.inl member)

theorem leaves_writeIndex (faulty : disk.Faulty view)
    {index : Assoc PageRecord}
    (lists : ListsWritten root files.2.written index)
    (backed : Backed root saved (view files.1) files.2.written)
    (ran : writeText disk.traced (indexFileIn root)
      (PageRecord.indexText index) files = (.ok (), changed)) :
    Leaves view root saved files changed ∧
      (view changed.1).read (indexFileIn root) =
        .ok (PageRecord.indexText index) := by
  obtain ⟨stored, written⟩ := written_of_writeText faulty ran
  refine ⟨⟨?_, ?_⟩, FileSystem.read_of_write stored⟩
  · rw [written]
    exact backed.writeIndex lists stored
  · rw [written]
    exact fun path member => Assoc.mem_keys_put.mpr (.inl member)

theorem Leaves.trans {first second third : δ × Trace}
    (before : Leaves view root saved first second)
    (after : Leaves view root saved second third) :
    Leaves view root saved first third :=
  ⟨after.backed, fun path member =>
    after.keeps path (before.keeps path member)⟩

/-- Whichever step of a save fails, the store lists written pages only; after a
successful save its index is in the index file. -/
theorem leaves_save (faulty : disk.Faulty view) {draft : PageDraft}
    {store after : DiskStore} {result : Except Failure String}
    (among : draft ∈ saved) (small : draft.order ≤ Json.Numeral.limit)
    (backed : Backed store.root saved (view files.1) files.2.written)
    (lists : ListsWritten store.root files.2.written store.index)
    (ran : save disk.traced draft store files = (result, after, changed)) :
    Leaves view store.root saved files changed ∧ after.root = store.root ∧
      ListsWritten store.root changed.2.written after.index ∧
      ∀ url, result = .ok url →
        (view changed.1).read (indexFileIn store.root) =
          .ok (PageRecord.indexText after.index) := by
  cases saveRun_of_save ran with
  | unprepared parent =>
      have left := leaves_createParent faulty backed parent
      exact ⟨left, rfl, lists.mono left.keeps, fun _ wrong => by cases wrong⟩
  | unwritten parent page =>
      have above := leaves_createParent faulty backed parent
      have left := above.trans (leaves_refused faulty above.backed page)
      exact ⟨left, rfl, lists.mono left.keeps, fun _ wrong => by cases wrong⟩
  | unindexed parent page index =>
      have above := leaves_createParent faulty backed parent
      obtain ⟨paged, there⟩ :=
        leaves_writePage faulty among above.backed page
      have last := leaves_refused faulty paged.backed index
      -- The page enters the index, for which its file is there by now.
      have left := (above.trans paged).trans last
      exact ⟨left, rfl,
        (lists.mono left.keeps).withPage small (last.keeps _ there),
        fun _ wrong => by cases wrong⟩
  | saved parent page index =>
      have above := leaves_createParent faulty backed parent
      obtain ⟨paged, there⟩ :=
        leaves_writePage faulty among above.backed page
      have listed := (lists.mono (above.trans paged).keeps).withPage small there
      obtain ⟨last, read⟩ :=
        leaves_writeIndex faulty listed paged.backed index
      exact ⟨(above.trans paged).trans last, rfl, listed.mono last.keeps,
        fun _ _ => read⟩

theorem leaves_load (faulty : disk.Faulty view) (baseUrl : Option String)
    {opened : Except Failure DiskStore}
    (backed : Backed root saved (view files.1) files.2.written)
    (ran : load disk.traced root baseUrl files = (opened, changed)) :
    Leaves view root saved files changed ∧
      ∀ store, opened = .ok store →
        store.root = root ∧
          ListsWritten root changed.2.written store.index := by
  have left := leaves_createDirectories faulty root backed
  cases made : disk.traced.createDirectories root files with
  | mk answer after =>
      rw [made] at left
      cases answer with
      | error error =>
          rw [load, made] at ran
          cases ran
          exact ⟨left, fun _ wrong => by cases wrong⟩
      | ok _ =>
          rw [load_of_created made] at ran
          obtain ⟨taken, rfl⟩ := Prod.mk.inj ran
          refine ⟨left, ?_⟩
          rintro store rfl
          obtain ⟨own, _, index⟩ := takeUp_eq_ok.mp taken
          refine ⟨own, ?_⟩
          split at index
          · obtain ⟨text, read, decoded⟩ := index
            obtain ⟨place, located, found⟩ := FileSystem.read_eq_ok.mp
              (faulty.read (indexFileIn root) after.1 text read)
            -- What is read at the path is in the place that the files back.
            rw [FileSystem.names_of_locate located] at found
            obtain ⟨known, same, lists⟩ := left.backed.index _ found
            cases same
            have equal := lists.indexOfText.symm.trans decoded
            cases equal
            exact lists
          · rw [index]
            exact ⟨List.nodup_nil, List.forall_mem_nil _, List.forall_mem_nil _⟩

end Steps

end DiskStore

/-! ## Calls -/

namespace OpenStores

open DiskStore

variable {δ : Type} {disk : Disk δ} {view : δ → FileSystem} {root : String}
  {saved : List PageDraft}

/-- The open stores list written pages only. -/
structure Sound (view : δ → FileSystem) (root : String)
    (saved : List PageDraft) (state : OpenStores (δ × Trace)) : Prop where
  backed : Backed root saved (view state.files.1) state.files.2.written
  stores : ∀ store ∈ state.stores, store.root = root ∧
    ListsWritten root state.files.2.written store.index

/-- Every call keeps the stores sound, whatever fails in it. -/
theorem Sound.call {state : OpenStores (δ × Trace)}
    (sound : Sound view root saved state) (faulty : disk.Faulty view)
    (made : StoreCall)
    (known : ∀ draft ∈ made.draft?, draft ∈ saved ∧
      draft.order ≤ Json.Numeral.limit) :
    Sound view root saved (state.call disk.traced root made) := by
  cases made with
  | openStore baseUrl =>
      rw [OpenStores.call]
      cases ran : load disk.traced root baseUrl state.files with
      | mk opened changed =>
          obtain ⟨left, fresh⟩ := leaves_load faulty baseUrl sound.backed ran
          have kept : ∀ store ∈ state.stores, store.root = root ∧
              ListsWritten root changed.2.written store.index :=
            fun store member => ⟨(sound.stores store member).1,
              (sound.stores store member).2.mono left.keeps⟩
          cases opened with
          | error failure => exact ⟨left.backed, kept⟩
          | ok store =>
              refine ⟨left.backed, fun other member => ?_⟩
              rcases List.mem_append.mp member with old | new
              · exact kept other old
              · rw [List.mem_singleton.mp new]
                exact fresh store rfl
  | save number draft =>
      rw [OpenStores.call]
      cases found : state.stores[number]? with
      | none => exact sound
      | some store =>
          obtain ⟨rfl, lists⟩ := sound.stores store (List.mem_of_getElem? found)
          obtain ⟨among, small⟩ := known draft rfl
          cases ran : DiskStore.save disk.traced draft store state.files with
          | mk result rest =>
              obtain ⟨after, changed⟩ := rest
              obtain ⟨left, own, listed, _⟩ :=
                leaves_save faulty among small sound.backed lists ran
              dsimp only
              rw [ran]
              refine ⟨left.backed, fun other member => ?_⟩
              rcases List.mem_or_eq_of_mem_set member with old | rfl
              · exact ⟨(sound.stores other old).1,
                  (sound.stores other old).2.mono left.keeps⟩
              · exact ⟨own, listed⟩

theorem Sound.callAll {state : OpenStores (δ × Trace)}
    (sound : Sound view root saved state) (faulty : disk.Faulty view)
    (calls : List StoreCall)
    (known : ∀ draft ∈ draftsOf calls, draft ∈ saved ∧
      draft.order ≤ Json.Numeral.limit) :
    Sound view root saved (state.callAll disk.traced root calls) := by
  induction calls generalizing state with
  | nil => exact sound
  | cons first rest ih =>
      refine ih (sound.call faulty first fun draft given => ?_)
        fun draft later => ?_
      · exact known draft (List.mem_filterMap.mpr
          ⟨first, List.mem_cons_self, given⟩)
      · obtain ⟨made, member, given⟩ := List.mem_filterMap.mp later
        exact known draft (List.mem_filterMap.mpr
          ⟨made, List.mem_cons_of_mem _ member, given⟩)

end OpenStores

open DiskStore OpenStores in
/-- On a directory without an index file, and with a disk that may refuse any
step of any call: the keys of every open store, and those of the index that the
index file holds, are of pages whose files were written in full, and the files
are read as such pages.  After each successful save the index file holds the
index of the store.  Orders are numbers of 64 bits. -/
theorem listed_pages_written {δ : Type} {disk : Disk δ}
    {view : δ → FileSystem} (faulty : disk.Faulty view) (root : String)
    (start : δ) (calls : List StoreCall)
    (fresh : ∀ content,
      (view start).root.at? ((view start).names (indexFileIn root)) ≠
        some (.file content))
    (small : ∀ draft ∈ draftsOf calls, draft.order ≤ Json.Numeral.limit) :
    let state := callAll disk.traced root calls ⟨[], (start, {})⟩
    let files := view state.files.1
    let written := state.files.2.written
    (∀ store ∈ state.stores, ∀ key ∈ Assoc.keys store.index,
      pageFile root key ∈ Assoc.keys written ∧
        LeadsToPage root (draftsOf calls) files written key) ∧
      (∀ text index, files.read (indexFileIn root) = .ok text →
        PageRecord.indexOfText text = .ok index →
        ∀ key ∈ Assoc.keys index,
          pageFile root key ∈ Assoc.keys written ∧
            LeadsToPage root (draftsOf calls) files written key) ∧
      ∀ store ∈ state.stores, ∀ draft : PageDraft,
        draft.order ≤ Json.Numeral.limit →
        ∀ url after changed,
          DiskStore.save disk.traced draft store state.files =
            (.ok url, after, changed) →
          ∃ text, (view changed.1).read (indexFileIn root) = .ok text ∧
            PageRecord.indexOfText text = .ok after.index := by
  intro state files written
  have reached {saved : List PageDraft}
      (known : ∀ draft ∈ draftsOf calls, draft ∈ saved) :
      Sound view root saved state := by
    have begun : Sound view root saved ⟨[], (start, {})⟩ :=
      { backed :=
          { pages := fun _ none => nomatch none
            index := fun content found => (fresh content found).elim }
        stores := List.forall_mem_nil _ }
    exact begun.callAll faulty calls fun draft member =>
      ⟨known draft member, small draft member⟩
  have sound := reached fun _ member => member
  have found {index : Assoc PageRecord}
      (lists : ListsWritten root written index) :
      ∀ key ∈ Assoc.keys index, pageFile root key ∈ Assoc.keys written ∧
        LeadsToPage root (draftsOf calls) files written key :=
    fun key member => ⟨lists.pages key member,
      sound.backed.pages key (lists.pages key member)⟩
  refine ⟨fun store member => found (sound.stores store member).2, ?_, ?_⟩
  · intro text index read decoded
    obtain ⟨place, located, content⟩ := FileSystem.read_eq_ok.mp read
    rw [FileSystem.names_of_locate located] at content
    obtain ⟨known, same, lists⟩ := sound.backed.index _ content
    cases same
    cases lists.indexOfText.symm.trans decoded
    exact found lists
  · intro store member draft few url after changed ran
    have wider : Sound view root (draft :: draftsOf calls) state :=
      reached fun _ member => List.mem_cons_of_mem _ member
    obtain ⟨rfl, lists⟩ := wider.stores store member
    obtain ⟨_, _, listed, read⟩ := leaves_save faulty List.mem_cons_self few
      wider.backed lists ran
    exact ⟨_, read url rfl, listed.indexOfText⟩

open OpenStores in
/-- A page whose save fails with the index file is listed all the same, for it
was written, and the next save puts it into the index file.  A page whose save
fails with the page file is not listed. -/
theorem listed_pages_written_refused :
    let calls : List StoreCall :=
      [.openStore none, .save 0 ⟨"api", "first", "one", 2⟩,
        .save 0 ⟨"api", "second", "two", 3⟩, .save 0 ⟨"api", "third", "three", 4⟩,
        .openStore none]
    let faults : List (Option FileError) :=
      [none, none, none, some .isDirectory, none, some .isDirectory]
    let start := (FileSystem.empty, faults)
    let state := callAll FileSystem.disk.withFaults.traced "docs" calls
      ⟨[], (start, {})⟩
    (state.stores.map fun store => Assoc.keys store.index) =
        [["api/first", "api/third"], ["api/first", "api/third"]] ∧
      ∀ store ∈ state.stores, ∀ key ∈ Assoc.keys store.index,
        pageFile "docs" key ∈ Assoc.keys state.files.2.written ∧
          DiskStore.LeadsToPage "docs" (draftsOf calls) state.files.1.1
            state.files.2.written key := by
  intro calls faults start
  have free : (FileSystem.empty.root.at?
      (FileSystem.empty.names (indexFileIn "docs"))).isNone = true := by
    decide +kernel
  have fresh : ∀ content,
      start.1.root.at? (start.1.names (indexFileIn "docs")) ≠
        some (.file content) := by
    intro content found
    have nothing := Option.isNone_iff_eq_none.mp free
    cases nothing.symm.trans found
  have faulty : FileSystem.disk.withFaults.Faulty Prod.fst :=
    Disk.faulty_disk.withFaults
  have small : ∀ draft ∈ draftsOf calls,
      draft.order ≤ Json.Numeral.limit := by
    decide +kernel
  have all := listed_pages_written faulty "docs" start calls fresh small
  exact ⟨by decide +kernel, all.1⟩

end TagDoc
