import TagDoc.Proofs.MemoryRuns
import Mathlib.Logic.Function.Iterate

/-!
# Documenting the same again

A pass over routes reads the page index that it extends, so the first pass can
leave a page without a link to one that is saved after it.  From then on all
keys of the pass stand in the index with their URLs, and every later pass makes
the same pages: `rebuilding_converges`.  A pass over tables reads nothing of the
store and settles at once.
-/

namespace TagDoc

variable {δ : Type}

/-- Two pages that differ at most in links to touched pages. -/
structure StoredPage.Alike (config : Config) (touched : String → Prop)
    (first second : StoredPage) : Prop where
  order : first.order = second.order
  url : first.url = second.url
  content : SameButLinks config touched first.content second.content

theorem StoredPage.Alike.refl {config : Config} {touched : String → Prop}
    (page : StoredPage) : page.Alike config touched page :=
  ⟨rfl, rfl, .refl _⟩

namespace MemoryStore

/-- The pass over routes that saves the given pages into a store. -/
structure Saves (disk : Disk δ) (config : Config) (baseUrl : Option String)
    (routes : List Route) (files : δ) (store : MemoryStore)
    (drafts : List PageDraft) : Prop where
  sameBase : store.baseUrl = baseUrl
  calm : ∃ outcomes final,
    drafts = routeDrafts config routes outcomes ∧
      CalmPass (workspace disk) config baseUrl (disk.source files)
        (store.Seen drafts) routes (store, files) outcomes final
  state : (apiPass (workspace disk) config routes (store, files)).state =
    (store.saveAll drafts, files)

theorem saveAll_again (drafts : List PageDraft) (store : MemoryStore) :
    (store.saveAll drafts).saveAll drafts = store.saveAll drafts := by
  have pages := Assoc.putAll_putAll (drafts.map (stored store.baseUrl)) store.pages
  simp only [saveAll, pages]

theorem exists_saves (disk : Disk δ) (config : Config) (routes : List Route)
    (files : δ) (store : MemoryStore) :
    ∃ drafts, Saves disk config store.baseUrl routes files store drafts := by
  obtain ⟨outcomes, final, calm, state⟩ :=
    exists_calmPass disk config routes store files
  exact ⟨_, rfl, ⟨outcomes, final, rfl, calm⟩, state⟩

/-! ## The page indexes of a pass -/

/-- Pages that were saved once change nothing in the index when some of them
are saved again. -/
theorem index_saveAll_again {drafts again : List PageDraft}
    (known : ∀ draft ∈ again, draft.key ∈ drafts.map PageDraft.key)
    (store : MemoryStore) :
    ((store.saveAll drafts).saveAll again).index =
      (store.saveAll drafts).index := by
  rw [index_saveAll again]
  apply Assoc.putAll_eq_self
  intro pair member
  obtain ⟨draft, among, rfl⟩ := List.mem_map.mp member
  have published := Assoc.get?_putAll_map (pageUrl store.baseUrl) store.index
    (known draft among)
  simp only [List.map_map, Function.comp_def] at published
  rw [index_saveAll, published, baseUrl_saveAll]

theorem get?_index_saveAll {drafts : List PageDraft} {key : String}
    (other : key ∉ drafts.map PageDraft.key) (store : MemoryStore) :
    Assoc.get? key (store.saveAll drafts).index =
      Assoc.get? key store.index := by
  rw [index_saveAll]
  apply Assoc.get?_putAll_of_not_mem
  simpa only [Assoc.keys, List.map_map, Function.comp_def] using other

theorem map_stored_alike {config : Config} {touched : String → Prop}
    {drafts again : List PageDraft}
    (alike : List.Forall₂ (PageDraft.Alike config touched) drafts again)
    (baseUrl : Option String) :
    Assoc.Alike (StoredPage.Alike config touched)
      (drafts.map (stored baseUrl)) (again.map (stored baseUrl)) := by
  induction alike with
  | nil => exact .nil
  | cons first _ ih =>
      refine .cons ⟨?_, first.order, ?_, first.content⟩ ih
      · simp only [stored, first.key]
      · simp only [stored, first.key]

namespace Saves

theorem keys_logged {disk : Disk δ} {config : Config}
    {baseUrl : Option String} {routes : List Route} {files : δ}
    {store : MemoryStore} {drafts : List PageDraft}
    (saves : Saves disk config baseUrl routes files store drafts) :
    ((apiPass (workspace disk).logged config routes
        ((store, files), [])).state.2.map fun call => call.draft.key) =
      drafts.map PageDraft.key := by
  obtain ⟨_, _, rfl, calm⟩ := saves.calm
  simp only [calm.apiPass_logged, List.nil_append, List.map_map,
    Function.comp_def, SaveCall.published]

section Pairs

variable {disk : Disk δ} {config : Config} {baseUrl : Option String}
  {routes : List Route} {files : δ} {store store' : MemoryStore}
  {drafts drafts' : List PageDraft}
  (saves : Saves disk config baseUrl routes files store drafts)
  (saves' : Saves disk config baseUrl routes files store' drafts')

include saves saves'

theorem report_eq :
    (apiPass (workspace disk) config routes (store, files)).report =
      (apiPass (workspace disk) config routes (store', files)).report := by
  obtain ⟨_, _, _, calm⟩ := saves.calm
  obtain ⟨_, _, _, calm'⟩ := saves'.calm
  exact calm.report_eq calm'

theorem findings_eq :
    (apiPass (workspace disk) config routes (store, files)).findings =
      (apiPass (workspace disk) config routes (store', files)).findings := by
  obtain ⟨_, _, _, calm⟩ := saves.calm
  obtain ⟨_, _, _, calm'⟩ := saves'.calm
  exact calm.findings_eq calm'

theorem alike (touched : String → Prop)
    (agree : ∀ pages pages', store.Seen drafts pages →
      store'.Seen drafts' pages' →
      ∀ key, ¬ touched key → Assoc.get? key pages = Assoc.get? key pages') :
    List.Forall₂ (PageDraft.Alike config touched) drafts drafts' := by
  obtain ⟨_, _, rfl, calm⟩ := saves.calm
  obtain ⟨_, _, rfl, calm'⟩ := saves'.calm
  exact calm.alike calm' agree

theorem keys_eq : drafts.map PageDraft.key = drafts'.map PageDraft.key := by
  have alike := saves.alike saves' (fun _ => True)
    fun _ _ _ _ _ untouched => (untouched trivial).elim
  clear saves saves'
  induction alike with
  | nil => rfl
  | cons first _ ih => rw [List.map_cons, List.map_cons, first.key, ih]

end Pairs

variable {disk : Disk δ} {config : Config} {baseUrl : Option String}
  {routes : List Route} {files : δ} {store : MemoryStore}
  {drafts again third : List PageDraft}

/-- A second pass makes the same pages up to links to pages of the pass. -/
theorem alike_again (saves : Saves disk config baseUrl routes files store drafts)
    (repeated : Saves disk config baseUrl routes files (store.saveAll drafts)
      again) :
    List.Forall₂
      (PageDraft.Alike config fun key => key ∈ drafts.map PageDraft.key)
      drafts again := by
  refine saves.alike repeated _ ?_
  rintro _ _ ⟨some, among, rfl⟩ ⟨others, amongAgain, rfl⟩ key untouched
  have same := saves.keys_eq repeated
  have first : key ∉ some.map PageDraft.key := fun member =>
    untouched (List.map_subset _ among member)
  have second : key ∉ others.map PageDraft.key := fun member =>
    untouched (same ▸ List.map_subset _ amongAgain member)
  rw [get?_index_saveAll first, get?_index_saveAll second,
    get?_index_saveAll untouched]

/-- A third pass makes the pages of the second one: both see the index that the
first pass left. -/
theorem third_eq (saves : Saves disk config baseUrl routes files store drafts)
    (repeated : Saves disk config baseUrl routes files (store.saveAll drafts)
      again)
    (once : Saves disk config baseUrl routes files
      ((store.saveAll drafts).saveAll again) third) :
    again = third := by
  have known (some : List PageDraft) (among : some ⊆ again) :
      ∀ draft ∈ some, draft.key ∈ drafts.map PageDraft.key := by
    intro draft member
    rw [saves.keys_eq repeated]
    exact List.mem_map_of_mem (among member)
  have knownThird (some : List PageDraft) (among : some ⊆ third) :
      ∀ draft ∈ again ++ some, draft.key ∈ drafts.map PageDraft.key := by
    intro draft member
    rcases List.mem_append.mp member with old | new
    · exact known again (List.Subset.refl _) draft old
    · rw [saves.keys_eq once]
      exact List.mem_map_of_mem (among new)
  have alike := repeated.alike once (fun _ => False) (by
    rintro _ _ ⟨some, among, rfl⟩ ⟨others, amongThird, rfl⟩ key _
    rw [← saveAll_append again others, index_saveAll_again (known some among),
      index_saveAll_again (knownThird others amongThird)])
  have equal := alike.imp fun _ _ same => same.eq fun _ => id
  rwa [List.forall₂_eq_eq_eq] at equal

theorem pages_alike
    (saves : Saves disk config baseUrl routes files store drafts)
    (repeated : Saves disk config baseUrl routes files (store.saveAll drafts)
      again) :
    Assoc.Alike
      (StoredPage.Alike config fun key => key ∈ drafts.map PageDraft.key)
      (store.saveAll drafts).pages
      ((store.saveAll drafts).saveAll again).pages := by
  have values := map_stored_alike (saves.alike_again repeated) store.baseUrl
  exact values.putAll_again StoredPage.Alike.refl store.pages

end Saves

end MemoryStore

open MemoryStore (Saves exists_saves)

/-- Documenting the same again settles.  However often routes are documented
into a memory store, the report and the findings are those of the first time,
and from the second time on the store stays as it is.  After the first time it
has the same pages in the same order, and a text can only differ in the table
references to pages that this pass saved.  Documenting tables settles at
once. -/
theorem rebuilding_converges (disk : Disk δ) (config : Config)
    (routes : List Route) (registry : TableRegistry) (store : MemoryStore)
    (files : δ) :
    let space := MemoryStore.workspace disk
    let pass := apiPass space config routes
    let after (count : Nat) :=
      (fun state => (pass state).state)^[count] (store, files)
    let saved :=
      (apiPass space.logged config routes ((store, files), [])).state.2
    let tables := registryPass space config registry (store, files)
    (∀ count, (pass (after count)).report = (pass (store, files)).report ∧
      (pass (after count)).findings = (pass (store, files)).findings) ∧
    (∀ count, after (count + 2) = after 2) ∧
    Assoc.Alike
      (StoredPage.Alike config fun key =>
        key ∈ saved.map fun call => call.draft.key)
      (after 1).1.pages (after 2).1.pages ∧
    registryPass space config registry tables.state = tables := by
  intro space pass after saved tables
  obtain ⟨drafts, first⟩ := exists_saves disk config routes files store
  obtain ⟨again, second⟩ :=
    exists_saves disk config routes files (store.saveAll drafts)
  obtain ⟨third, once⟩ := exists_saves disk config routes files
    ((store.saveAll drafts).saveAll again)
  have after_one : after 1 = (store.saveAll drafts, files) := first.state
  have after_two : after 2 =
      ((store.saveAll drafts).saveAll again, files) := by
    rw [show after 2 = (pass (after 1)).state from rfl, after_one]
    exact second.state
  have fixed : (pass (after 2)).state = after 2 := by
    rw [after_two, once.state, ← first.third_eq second once,
      MemoryStore.saveAll_again]
  have settled : ∀ count, after (count + 2) = after 2 := by
    intro count
    induction count with
    | zero => rfl
    | succ count ih =>
        have step : after (count + 1 + 2) = (pass (after (count + 2))).state :=
          Function.iterate_succ_apply' _ _ _
        rw [step, ih, fixed]
  have intoStore : ∀ count, ∃ current drafts,
      after count = (current, files) ∧
        Saves disk config store.baseUrl routes files current drafts := by
    intro count
    match count with
    | 0 => exact ⟨store, drafts, rfl, first⟩
    | 1 => exact ⟨_, again, after_one, second⟩
    | count + 2 => exact ⟨_, third, (settled count).trans after_two, once⟩
  refine ⟨?_, settled, ?_, ?_⟩
  · intro count
    obtain ⟨current, own, here, saves⟩ := intoStore count
    rw [here]
    exact ⟨saves.report_eq first, saves.findings_eq first⟩
  · rw [after_one, after_two, first.keys_logged]
    exact first.pages_alike second
  · simp only [tables, space, MemoryStore.registryPass_eq,
      MemoryStore.baseUrl_saveAll, MemoryStore.saveAll_again]

end TagDoc
