import TagDoc.Proofs.DiskSaves
import TagDoc.Proofs.MemoryRuns

/-!
# A disk store does as a memory store does

A store is used step by step: pages are saved, and every now and then the store
is opened again.  As long as the file system refuses nothing, a disk store that
was opened without pages gives the same answers as a memory store and has the
same pages after every step; its files have what was saved last.
-/

namespace TagDoc

/-! ## Using a store -/

/-- What is done with a store. -/
inductive StoreStep where
  | save (draft : PageDraft)
  | reopen
deriving DecidableEq, Repr

/-- The page that a step saves. -/
def StoreStep.draft? : StoreStep → Option PageDraft
  | .save draft => some draft
  | .reopen => none

/-- The pages that are saved on the way. -/
def savesOf (steps : List StoreStep) : List PageDraft :=
  steps.filterMap StoreStep.draft?

/-- What is seen of a step: its answer, which for a page is the URL, and the
page index after it. -/
structure StepView where
  answer : Except Failure (Option String)
  pages : Except Failure PageIndex
deriving DecidableEq

namespace Workspace

variable {σ : Type}

/-- A step with a store that is opened again by `reopen`. -/
def step (space : Workspace σ) (reopen : σ → Except Failure Unit × σ)
    (state : σ) : StoreStep → Except Failure (Option String) × σ
  | .save draft =>
      let saved := space.save draft state
      (saved.1.map some, saved.2)
  | .reopen =>
      let opened := reopen state
      (opened.1.map fun _ => none, opened.2)

/-- Use a store step by step, asking for the page index after every step. -/
def use (space : Workspace σ) (reopen : σ → Except Failure Unit × σ) :
    List StoreStep → σ → List StepView × σ
  | [], state => ([], state)
  | step :: rest, state =>
      let answered := space.step reopen state step
      let asked := space.pages answered.2
      let others := space.use reopen rest asked.2
      (⟨answered.1, asked.1⟩ :: others.1, others.2)

end Workspace

/-- Open the store of a directory again.  The old one stays if that fails. -/
def DiskStore.reopen {δ : Type} (disk : Disk δ) (state : DiskStore × δ) :
    Except Failure Unit × (DiskStore × δ) :=
  match load disk state.1.root state.1.baseUrl state.2 with
  | (.error failure, files) => (.error failure, (state.1, files))
  | (.ok store, files) => (.ok (), (store, files))

/-- In memory there is nothing to open. -/
def MemoryStore.reopen {δ : Type} (state : MemoryStore × δ) :
    Except Failure Unit × (MemoryStore × δ) :=
  (.ok (), state)

/-! ## The disk store of a memory store -/

namespace MemoryStore

/-- The pages as an index file has them. -/
def records (store : MemoryStore) : Assoc PageRecord :=
  store.pages.map fun (key, page) => (key, ⟨page.url, page.order⟩)

/-- The disk store with the same pages. -/
def onDisk (root : String) (store : MemoryStore) : DiskStore where
  root := root
  baseUrl := store.baseUrl
  index := store.records

theorem pageIndex_onDisk (root : String) (store : MemoryStore) :
    (store.onDisk root).pageIndex = store.index := by
  rw [DiskStore.pageIndex, onDisk, records, List.map_map]
  rfl

theorem withPage_onDisk (root : String) (draft : PageDraft)
    (store : MemoryStore) :
    (store.onDisk root).withPage draft = (store.save draft).2.onDisk root := by
  have put := Assoc.map_put
    (fun page : StoredPage => (⟨page.url, page.order⟩ : PageRecord)) draft.key
    ⟨draft.content, draft.order, pageUrl store.baseUrl draft.key⟩ store.pages
  rw [DiskStore.withPage, onDisk, onDisk, save, records, records, put]

end MemoryStore

/-! ## What the files have -/

namespace DiskStore

open FileSystem (Keeps)

/-- Two pages are in one file. -/
def ShareFile (store : DiskStore) (files : FileSystem)
    (first second : PageDraft) : Prop :=
  ∃ place, files.locate (store.pagePath first.key) = .ok place ∧
    files.locate (store.pagePath second.key) = .ok place

/-- The file of each saved page has the content that was saved to it last. -/
def HasLast (store : DiskStore) (files : FileSystem)
    (saved : List PageDraft) : Prop :=
  ∀ draft ∈ saved, ∃ before last after,
    saved = before ++ last :: after ∧
      store.ShareFile files draft last ∧
      (∀ later ∈ after, ¬ store.ShareFile files draft later) ∧
      files.read (store.pagePath draft.key) = .ok last.content

theorem HasLast.exists_place {store : DiskStore} {files : FileSystem}
    {saved : List PageDraft} (has : store.HasLast files saved)
    {draft : PageDraft} (member : draft ∈ saved) :
    ∃ place, files.locate (store.pagePath draft.key) = .ok place := by
  obtain ⟨_, _, _, _, ⟨place, located, _⟩, _⟩ := has draft member
  exact ⟨place, located⟩

section Keeps

variable {store : DiskStore} {spared : List String → Prop}
  {files changed : FileSystem}

theorem place_eq {key : String} {old new : List String}
    (keeps : Keeps spared files changed)
    (before : files.locate (store.pagePath key) = .ok old)
    (after : changed.locate (store.pagePath key) = .ok new) : old = new :=
  Except.ok.inj ((keeps.locate before).symm.trans after)

theorem ShareFile.before {first second : PageDraft}
    (shared : store.ShareFile changed first second)
    (keeps : Keeps spared files changed) {one two : List String}
    (located : files.locate (store.pagePath first.key) = .ok one)
    (other : files.locate (store.pagePath second.key) = .ok two) :
    store.ShareFile files first second := by
  obtain ⟨place, here, there⟩ := shared
  have same : one = two :=
    (place_eq keeps located here).trans (place_eq keeps other there).symm
  exact ⟨one, located, same ▸ other⟩

end Keeps

/-- The new page replaces what its file had, and no other file changes. -/
theorem HasLast.save {store : DiskStore} {draft : PageDraft}
    {files changed : FileSystem} {place : List String}
    {saved : List PageDraft} (has : store.HasLast files saved)
    (after : Saved store draft files changed place) :
    store.HasLast changed (saved ++ [draft]) := by
  have keeps := after.keeps
  intro page member
  rcases List.mem_append.mp member with old | new
  · obtain ⟨before, last, rest, split, ⟨own, located, shared⟩, apart, read⟩ :=
      has page old
    -- A page saved before is in the file of the new one, or its file stays.
    by_cases same : own = place
    · subst same
      have here := keeps.locate located
      exact ⟨saved, draft, [], rfl, ⟨own, here, after.located⟩,
        List.forall_mem_nil _,
        FileSystem.read_eq_ok.mpr ⟨own, here, after.content⟩⟩
    · refine ⟨before, last, rest ++ [draft], by simp [split],
        ⟨own, keeps.locate located, keeps.locate shared⟩, ?_, ?_⟩
      · intro later among sharing
        rcases List.mem_append.mp among with known | final
        · have earlier : later ∈ saved := by simp [split, known]
          obtain ⟨other, there⟩ := has.exists_place earlier
          exact apart later known (sharing.before keeps located there)
        · obtain ⟨both, first, second⟩ := sharing
          rw [List.mem_singleton.mp final, after.located] at second
          exact same
            ((place_eq keeps located first).trans (Except.ok.inj second).symm)
      · obtain ⟨found, leads, content⟩ := FileSystem.read_eq_ok.mp read
        have here : found = own := Except.ok.inj (leads.symm.trans located)
        subst here
        exact FileSystem.read_eq_ok.mpr ⟨found, keeps.locate leads,
          keeps.files _ _ ⟨same, not_isIndexPlace_of_locate leads⟩ content⟩
  · rw [List.mem_singleton.mp new]
    exact ⟨saved, draft, [], rfl, ⟨place, after.located, after.located⟩,
      List.forall_mem_nil _,
      FileSystem.read_eq_ok.mpr ⟨place, after.located, after.content⟩⟩

/-! ## Steps -/

/-- The disk has what the memory store has: the store is opened as it is, its
index file has the index, and its page files have the pages saved so far. -/
structure Mirrors (root : String) (memory : MemoryStore)
    (saved : List PageDraft) (files : FileSystem) : Prop where
  reopens : load FileSystem.disk root memory.baseUrl files =
    (.ok (memory.onDisk root), files)
  small : ∀ entry ∈ memory.records, entry.2.order ≤ Json.Numeral.limit
  recorded : saved ≠ [] →
    files.read (FilePath.join root indexFile) =
      .ok (PageRecord.indexText memory.records)
  hasLast : (memory.onDisk root).HasLast files saved

theorem Mirrors.save {root : String} {memory : MemoryStore}
    {saved : List PageDraft} {files changed : FileSystem} {draft : PageDraft}
    {place : List String} (mirrors : Mirrors root memory saved files)
    (small : draft.order ≤ Json.Numeral.limit)
    (after : Saved (memory.onDisk root) draft files changed place) :
    Mirrors root (memory.save draft).2 (saved ++ [draft]) changed := by
  have records : ((memory.onDisk root).withPage draft).index =
      (memory.save draft).2.records := by
    rw [MemoryStore.withPage_onDisk]
    rfl
  have distinct : (Assoc.keys (memory.save draft).2.records).Nodup := by
    rw [← records]
    exact Assoc.nodup_keys_put _ _
      (load_eq_ok mirrors.reopens).2.2.1.distinct
  have orders : ∀ entry ∈ (memory.save draft).2.records,
      entry.2.order ≤ Json.Numeral.limit := by
    intro entry member
    rw [← records] at member
    rcases Assoc.mem_put member with rfl | old
    · exact small
    · exact mirrors.small entry old
  have read : changed.read (FilePath.join root indexFile) =
      .ok (PageRecord.indexText (memory.save draft).2.records) := by
    rw [← records]
    exact after.index
  have created := FileSystem.createDirectories_again
    (load_eq_ok_iff.mp mirrors.reopens).1 after.keeps
  exact
    { reopens := load_of_read created read
        ((PageRecord.indexOfText_indexText distinct).mpr ⟨rfl, orders⟩)
      small := orders
      recorded := fun _ => read
      hasLast := mirrors.hasLast.save after }

section Run

variable {root : String} {memory : MemoryStore} {saved : List PageDraft}
  {files : FileSystem}

theorem Mirrors.step (mirrors : Mirrors root memory saved files)
    (step : StoreStep)
    (small : ∀ draft ∈ step.draft?, draft.order ≤ Json.Numeral.limit)
    (calm : Undisturbed ((workspace FileSystem.disk).step
      (reopen FileSystem.disk) (memory.onDisk root, files) step).1)
    {δ : Type} (disk : Disk δ) (others : δ) :
    ∃ answer next changed,
      (workspace FileSystem.disk).step (reopen FileSystem.disk)
          (memory.onDisk root, files) step =
        (answer, (next.onDisk root, changed)) ∧
      (MemoryStore.workspace disk).step MemoryStore.reopen (memory, others)
          step = (answer, (next, others)) ∧
      Mirrors root next (saved ++ step.draft?.toList) changed := by
  cases step with
  | save draft =>
      rw [Workspace.step] at calm ⊢
      dsimp only at calm ⊢
      rw [save_workspace] at calm ⊢
      cases answer : DiskStore.save FileSystem.disk draft (memory.onDisk root)
          files with
      | mk result rest =>
          obtain ⟨store, changed⟩ := rest
          rw [answer] at calm
          rcases save_cases answer with
            ⟨rfl, rfl, place, after⟩ | ⟨failure, rfl, refused⟩
          · refine ⟨_, (memory.save draft).2, changed, ?_, rfl,
              mirrors.save (small draft rfl) after⟩
            rw [MemoryStore.withPage_onDisk]
            rfl
          · have undisturbed : failure.ofDisk = false := calm failure rfl
            rw [refused] at undisturbed
            cases undisturbed
  | reopen =>
      refine ⟨.ok none, memory, files, ?_, rfl, ?_⟩
      · have opened : reopen FileSystem.disk (memory.onDisk root, files) =
            (.ok (), (memory.onDisk root, files)) := by
          have again : load FileSystem.disk (memory.onDisk root).root
              (memory.onDisk root).baseUrl files =
                (.ok (memory.onDisk root), files) := mirrors.reopens
          rw [reopen, again]
        rw [Workspace.step, opened]
        rfl
      · rw [StoreStep.draft?, Option.toList_none, List.append_nil]
        exact mirrors

/-- What the files have is had after every undisturbed use, in which both
stores are seen to do the same. -/
theorem Mirrors.use (mirrors : Mirrors root memory saved files)
    (steps : List StoreStep)
    (small : ∀ draft ∈ savesOf steps, draft.order ≤ Json.Numeral.limit)
    (calm : ∀ view ∈ ((workspace FileSystem.disk).use
      (reopen FileSystem.disk) steps (memory.onDisk root, files)).1,
      Undisturbed view.answer)
    {δ : Type} (disk : Disk δ) (others : δ) :
    ∃ views final changed,
      (workspace FileSystem.disk).use (reopen FileSystem.disk) steps
          (memory.onDisk root, files) =
        (views, (final.onDisk root, changed)) ∧
      (MemoryStore.workspace disk).use MemoryStore.reopen steps
          (memory, others) = (views, (final, others)) ∧
      Mirrors root final (saved ++ savesOf steps) changed := by
  induction steps generalizing memory saved files with
  | nil =>
      refine ⟨[], memory, files, rfl, rfl, ?_⟩
      rw [savesOf, List.filterMap_nil, List.append_nil]
      exact mirrors
  | cons step rest ih =>
      have saves : savesOf (step :: rest) =
          step.draft?.toList ++ savesOf rest := by
        rw [savesOf, savesOf, List.filterMap_cons]
        cases step.draft? with
        | none => rfl
        | some draft => rfl
      rw [saves, List.forall_mem_append] at small
      rw [Workspace.use] at calm
      dsimp only at calm
      rw [List.forall_mem_cons] at calm
      obtain ⟨answer, next, middle, onDisk, inMemory, mirrored⟩ :=
        mirrors.step step (fun draft given =>
          small.1 draft (Option.mem_toList.mpr given)) calm.1 disk others
      have asked : (workspace FileSystem.disk).pages
          (next.onDisk root, middle) =
            (.ok next.index, (next.onDisk root, middle)) := by
        rw [workspace]
        dsimp only
        rw [MemoryStore.pageIndex_onDisk]
      rw [onDisk, asked] at calm
      obtain ⟨views, final, changed, here, there, kept⟩ :=
        ih mirrored small.2 calm.2
      refine ⟨⟨answer, .ok next.index⟩ :: views, final, changed, ?_, ?_, ?_⟩
      · rw [Workspace.use, onDisk]
        dsimp only
        rw [asked, here]
      · have asked : (MemoryStore.workspace disk).pages (next, others) =
            (.ok next.index, (next, others)) := rfl
        rw [Workspace.use, inMemory]
        dsimp only
        rw [asked, there]
      · rw [saves, ← List.append_assoc]
        exact kept

end Run

end DiskStore

/-! ## From the start -/

namespace MemoryStore

theorem use_state {δ : Type} (disk : Disk δ) (steps : List StoreStep)
    (store : MemoryStore) (others : δ) :
    ((workspace disk).use reopen steps (store, others)).2 =
      (store.saveAll (savesOf steps), others) := by
  induction steps generalizing store with
  | nil => rfl
  | cons step rest ih =>
      cases step with
      | save draft => exact ih (store.save draft).2
      | reopen => exact ih store

theorem index_saveAll_empty (baseUrl : Option String)
    (saved : List PageDraft) :
    (({ baseUrl } : MemoryStore).saveAll saved).index =
      (saved.map PageDraft.key).eraseDups.map fun key =>
        (key, pageUrl baseUrl key) := by
  rw [index_saveAll, ← Assoc.putAll_map_nil, List.map_map]
  rfl

end MemoryStore

namespace DiskStore

/-- A disk store that was opened without pages answers as a memory store does
and has the same page index after every step, however often it is opened again
on the way.  After any steps the index file is read as the whole index, which
has the display orders too, no page file is in its place, and every page file
has the content that was saved to it last.  Orders are numbers of 64 bits. -/
theorem mirrors_memory {δ : Type} (disk : Disk δ) (others : δ) (root : String)
    (baseUrl : Option String) (start files : FileSystem)
    (steps : List StoreStep)
    (opened : load FileSystem.disk root baseUrl start =
      (.ok { root, baseUrl }, files))
    (small : ∀ draft ∈ savesOf steps, draft.order ≤ Json.Numeral.limit)
    (calm : ∀ view ∈ ((workspace FileSystem.disk).use (reopen FileSystem.disk)
      steps ({ root, baseUrl }, files)).1, Undisturbed view.answer) :
    let onDisk := (workspace FileSystem.disk).use (reopen FileSystem.disk)
      steps ({ root, baseUrl }, files)
    let inMemory := (MemoryStore.workspace disk).use MemoryStore.reopen steps
      ({ baseUrl }, others)
    let store := onDisk.2.1
    let changed := onDisk.2.2
    let keys := ((savesOf steps).map PageDraft.key).eraseDups
    onDisk.1 = inMemory.1 ∧
      store = inMemory.2.1.onDisk root ∧
      store.pageIndex = keys.map (fun key => (key, pageUrl baseUrl key)) ∧
      (savesOf steps ≠ [] → ∃ text,
        changed.read store.indexPath = .ok text ∧
          PageRecord.indexOfText text = .ok store.index) ∧
      (∀ key place, changed.locate (store.pagePath key) = .ok place →
        changed.locate store.indexPath ≠ .ok place) ∧
      store.HasLast changed (savesOf steps) := by
  intro onDisk inMemory store changed keys
  have mirrors : Mirrors root { baseUrl } [] files :=
    { reopens := load_again opened
      small := List.forall_mem_nil _
      recorded := fun some => (some rfl).elim
      hasLast := List.forall_mem_nil _ }
  obtain ⟨views, final, files', here, there, kept⟩ :=
    mirrors.use steps small calm disk others
  have onDisk_eq : onDisk = (views, (final.onDisk root, files')) := here
  have inMemory_eq : inMemory = (views, (final, others)) := there
  have store_eq : store = final.onDisk root := congrArg (·.2.1) onDisk_eq
  have changed_eq : changed = files' := congrArg (·.2.2) onDisk_eq
  have state := MemoryStore.use_state disk steps { baseUrl } others
  rw [there] at state
  have final_eq : final =
      ({ baseUrl } : MemoryStore).saveAll (savesOf steps) :=
    congrArg Prod.fst state
  rw [store_eq, changed_eq]
  refine ⟨?_, ?_, ?_, ?_, ?_, kept.hasLast⟩
  · rw [onDisk_eq, inMemory_eq]
  · rw [inMemory_eq]
  · rw [MemoryStore.pageIndex_onDisk, final_eq]
    exact MemoryStore.index_saveAll_empty baseUrl (savesOf steps)
  · intro some
    have read := kept.recorded some
    have distinct : (Assoc.keys final.records).Nodup :=
      (load_eq_ok kept.reopens).2.2.1.distinct
    exact ⟨_, read,
      (PageRecord.indexOfText_indexText distinct).mpr ⟨rfl, kept.small⟩⟩
  · intro key place located index
    exact not_isIndexPlace_of_locate located (isIndexPlace_of_locate index)

/-- A page that is saved again after the store was opened again stays first,
and its file has the new content. -/
theorem mirrors_memory_reopened :
    let steps : List StoreStep :=
      [.save ⟨"api", "/user", "old", 2⟩, .reopen,
        .save ⟨"api", "index", "list", 1⟩, .save ⟨"api", "user", "new", 5⟩,
        .reopen]
    let files := (load FileSystem.disk "docs" none FileSystem.empty).2
    let onDisk := (workspace FileSystem.disk).use (reopen FileSystem.disk)
      steps ({ root := "docs" }, files)
    let inMemory := (MemoryStore.workspace FileSystem.disk).use
      MemoryStore.reopen steps ({}, files)
    onDisk.1 = inMemory.1 ∧
      onDisk.2.1.pageIndex =
        [("api/user", "api/user.md"), ("api/index", "api/index.md")] ∧
      onDisk.2.1.HasLast onDisk.2.2 (savesOf steps) := by
  intro steps files onDisk inMemory
  have opened : load FileSystem.disk "docs" none FileSystem.empty =
      (.ok { root := "docs" }, files) := by
    have loaded : (load FileSystem.disk "docs" none FileSystem.empty).1 =
        .ok { root := "docs" } := by
      decide +kernel
    exact (Prod.eta _).symm.trans
      (congrArg (fun result => (result, files)) loaded)
  have calm : ∀ view ∈ onDisk.1, Undisturbed view.answer := by
    decide +kernel
  obtain ⟨views, _, index, _, _, last⟩ := mirrors_memory FileSystem.disk files
    "docs" none FileSystem.empty files steps opened (by decide +kernel) calm
  have keys : ((savesOf steps).map PageDraft.key).eraseDups =
      ["api/user", "api/index"] := by
    decide +kernel
  have listed : ["api/user", "api/index"].map
      (fun key => (key, pageUrl none key)) =
        [("api/user", "api/user.md"), ("api/index", "api/index.md")] := by
    decide +kernel
  rw [keys, listed] at index
  exact ⟨views, index, last⟩

end DiskStore

end TagDoc
