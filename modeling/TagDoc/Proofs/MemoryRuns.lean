import TagDoc.Proofs.CalmRoutes
import TagDoc.Proofs.Overwriting
import TagDoc.Store.Memory

/-!
# Passes into memory

A memory store refuses nothing and leaves the disk alone, so after a pass it
has what it had before and the pages that the pass saved, in the order of their
saving.  For tables these pages are known beforehand (`registryPass_eq`); for
routes they depend on the page indexes seen on the way, each of which is that of
the store with some of the pages of the pass (`exists_calmPass`).
-/

namespace TagDoc

variable {δ : Type}

/-- The text of the source at a path, as a workspace reads it. -/
def Disk.source (disk : Disk δ) (files : δ) (path : String) :
    Except Failure String :=
  (disk.read path files).mapError (Failure.read path)

namespace MemoryStore

/-- A page as a store keeps it, under its key. -/
def stored (baseUrl : Option String) (draft : PageDraft) :
    String × StoredPage :=
  (draft.key, ⟨draft.content, draft.order, pageUrl baseUrl draft.key⟩)

/-- The store with pages that were saved one after the other. -/
def saveAll (drafts : List PageDraft) (store : MemoryStore) : MemoryStore :=
  { store with
    pages := Assoc.putAll (drafts.map (stored store.baseUrl)) store.pages }

@[simp]
theorem baseUrl_saveAll (drafts : List PageDraft) (store : MemoryStore) :
    (store.saveAll drafts).baseUrl = store.baseUrl := rfl

theorem saveAll_append (first second : List PageDraft) (store : MemoryStore) :
    store.saveAll (first ++ second) = (store.saveAll first).saveAll second := by
  simp only [saveAll, List.map_append, Assoc.putAll_append]

theorem save_saveAll (drafts : List PageDraft) (draft : PageDraft)
    (store : MemoryStore) :
    ((store.saveAll drafts).save draft).2 = store.saveAll (drafts ++ [draft]) := by
  rw [saveAll_append]
  rfl

theorem index_saveAll (drafts : List PageDraft) (store : MemoryStore) :
    (store.saveAll drafts).index =
      Assoc.putAll
        (drafts.map fun draft => (draft.key, pageUrl store.baseUrl draft.key))
        store.index := by
  rw [index, saveAll, Assoc.map_putAll, List.map_map]
  rfl

/-! ## Logs -/

/-- A logged store has published the pages of its log, and no others since it
was opened. -/
structure Logs (store : MemoryStore) (files : δ)
    (state : (MemoryStore × δ) × List SaveCall) : Prop where
  pages : state.1 = (store.saveAll (state.2.map SaveCall.draft), files)
  published : ∀ call ∈ state.2, call = .published store.baseUrl call.draft

theorem logs_nil (store : MemoryStore) (files : δ) :
    Logs store files ((store, files), []) where
  pages := rfl
  published _ member := (List.not_mem_nil member).elim

theorem Logs.succeeded {store : MemoryStore} {files : δ}
    {state : (MemoryStore × δ) × List SaveCall} (logs : Logs store files state) :
    ∀ call ∈ state.2, call.Succeeded := by
  intro call member
  rw [logs.published call member]
  exact SaveCall.succeeded_published _ _

theorem keeps_logs (disk : Disk δ) (store : MemoryStore) (files : δ) :
    (workspace disk).logged.Keeps (Logs store files) where
  pages _ before := before
  save draft state before := by
    obtain ⟨current, log⟩ := state
    obtain ⟨here, published⟩ := before
    dsimp only at here published
    subst here
    refine ⟨?_, ?_⟩
    · rw [save_logged, List.map_append, saveAll_append]
      rfl
    · intro call member
      rcases List.mem_append.mp member with old | new
      · exact published call old
      · rw [List.mem_singleton.mp new]
        rfl

theorem serves (disk : Disk δ) (baseUrl : Option String) :
    (workspace disk).Serves baseUrl fun state => state.1.baseUrl = baseUrl where
  keeps :=
    { pages := fun _ sound => sound
      save := fun _ _ sound => sound }
  pages _ _ := ⟨_, rfl⟩
  saved draft state url sound answer := by
    cases answer
    rw [sound]

/-! ## Tables -/

theorem registryCalls_eq (disk : Disk δ) (config : Config)
    (registry : TableRegistry) (store : MemoryStore) (files : δ) :
    let run := registryPass (workspace disk) config registry (store, files)
    run.report = publishedReports store.baseUrl config registry ∧
      run.findings = registryFindings store.baseUrl config registry ∧
      registryCalls (workspace disk) config registry (store, files) =
        (registryDrafts store.baseUrl config registry).map
          (SaveCall.published store.baseUrl) := by
  have logs := registryPass_keeps (keeps_logs disk store files) config registry
    (logs_nil store files)
  rw [registryPass_logged, List.nil_append] at logs
  exact registryPass_calm (serves disk store.baseUrl) (by rfl) logs.succeeded

theorem registryPass_eq (disk : Disk δ) (config : Config)
    (registry : TableRegistry) (store : MemoryStore) (files : δ) :
    registryPass (workspace disk) config registry (store, files) =
      { report := publishedReports store.baseUrl config registry
        findings := registryFindings store.baseUrl config registry
        state :=
          (store.saveAll (registryDrafts store.baseUrl config registry),
            files) } := by
  obtain ⟨report, findings, calls⟩ :=
    registryCalls_eq disk config registry store files
  have logs := registryPass_keeps (keeps_logs disk store files) config registry
    (logs_nil store files)
  rw [registryPass_logged, List.nil_append, calls] at logs
  have state := logs.pages
  rw [SaveCall.map_draft_published] at state
  rw [← report, ← findings, ← state]

/-! ## Routes -/

/-- A page index is that of the store with some of the given pages. -/
def Seen (store : MemoryStore) (drafts : List PageDraft)
    (pages : PageIndex) : Prop :=
  ∃ saved ⊆ drafts, pages = (store.saveAll saved).index

theorem sourcesRead (disk : Disk δ) (config : Config) (routes : List Route)
    (order : Nat) (store : MemoryStore) (files : δ) :
    SourcesRead (workspace disk) config (disk.source files) routes order
      (store, files) := by
  have keeps : (workspace disk).Keeps fun state => state.2 = files :=
    { pages := fun _ same => same
      save := fun _ _ same => same }
  refine sourcesRead_of_keeps keeps ?_ routes order rfl
  rintro path ⟨current, _⟩ rfl
  rfl

/-- A pass over routes saves its pages, each made against the page index of the
store with some of the pages of the pass. -/
theorem exists_calmPass (disk : Disk δ) (config : Config)
    (routes : List Route) (store : MemoryStore) (files : δ) :
    ∃ outcomes final,
      let drafts := routeDrafts config routes outcomes
      CalmPass (workspace disk) config store.baseUrl (disk.source files)
        (store.Seen drafts) routes (store, files) outcomes final ∧
      (apiPass (workspace disk) config routes (store, files)).state =
        (store.saveAll drafts, files) := by
  obtain ⟨outcomes, final, runs⟩ := exists_routeRuns (workspace disk) config
    routes firstUnitOrder (store, files)
  refine ⟨outcomes, final, ?_⟩
  intro drafts
  have logs := apiPass_keeps (keeps_logs disk store files) config routes
    (logs_nil store files)
  -- Every state of the pass has the store with some of the pages of the pass.
  let holds (state : MemoryStore × δ) : Prop :=
    ∃ saved ⊆ drafts, state = (store.saveAll saved, files)
  have sound : ∀ state, holds state → state.1.baseUrl = store.baseUrl := by
    rintro state ⟨saved, _, rfl⟩
    rfl
  have listed : ∀ state pages, holds state →
      ((workspace disk).pages state).1 = .ok pages →
        store.Seen drafts pages := by
    rintro state pages ⟨saved, among, rfl⟩ answer
    exact ⟨saved, among, (Except.ok.inj answer).symm⟩
  have grows : ∀ call ∈ routeSaves config routes firstUnitOrder outcomes,
      ∀ state, holds state →
        holds ((workspace disk).save call.draft state).2 := by
    rintro call member state ⟨saved, among, rfl⟩
    have here : call.draft ∈ drafts :=
      List.mem_append_left _ (List.mem_map_of_mem member)
    refine ⟨saved ++ [call.draft], ?_, ?_⟩
    · exact List.append_subset.mpr
        ⟨among, List.cons_subset.mpr ⟨here, List.nil_subset _⟩⟩
    · rw [← save_saveAll]
      rfl
  have calm := runs.calmPass (serves disk store.baseUrl) sound listed
    (fun _ before => before) grows
    (sourcesRead disk config routes firstUnitOrder store files) logs.succeeded
    ⟨[], List.nil_subset _, rfl⟩
  refine ⟨calm, ?_⟩
  have state := logs.pages
  rw [calm.apiPass_logged, List.nil_append] at state
  rw [SaveCall.map_draft_published] at state
  exact state

end MemoryStore

end TagDoc
