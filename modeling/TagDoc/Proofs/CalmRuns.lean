import TagDoc.Proofs.Relinking
import TagDoc.Proofs.TableRuns

/-!
# Passes that no store refuses

Where every save succeeds, the reports and the findings of a pass follow from
the registry, the base URL and the handler sources alone.  The page index has
no part in them: it only decides the links on route pages.  `registryPass_calm`
says so for tables; passes over routes need their outcomes for it.
-/

namespace TagDoc

variable {σ : Type}

namespace SaveCall

/-- A page was saved and has the URL of its key. -/
def published (baseUrl : Option String) (draft : PageDraft) : SaveCall :=
  ⟨draft, .ok (pageUrl baseUrl draft.key)⟩

def Succeeded (call : SaveCall) : Prop :=
  ∃ url, call.saved = .ok url

instance (call : SaveCall) : Decidable call.Succeeded :=
  match answer : call.saved with
  | .ok url => .isTrue ⟨url, answer⟩
  | .error _ => .isFalse fun ⟨_, other⟩ => by cases answer.symm.trans other

theorem succeeded_published (baseUrl : Option String) (draft : PageDraft) :
    (published baseUrl draft).Succeeded := ⟨_, rfl⟩

@[simp]
theorem map_draft_published (baseUrl : Option String)
    (drafts : List PageDraft) :
    (drafts.map (published baseUrl)).map SaveCall.draft = drafts := by
  rw [List.map_map]
  exact List.map_id drafts

end SaveCall

/-- In its sound states a store always gives its page index, and the URLs it
gives are those of the pages' keys. -/
structure Workspace.Serves (space : Workspace σ) (baseUrl : Option String)
    (sound : σ → Prop) : Prop where
  keeps : space.Keeps sound
  pages : ∀ state, sound state → ∃ pages, (space.pages state).1 = .ok pages
  saved : ∀ draft state url, sound state →
    (space.save draft state).1 = .ok url → url = pageUrl baseUrl draft.key

theorem Workspace.Serves.answer {space : Workspace σ}
    {baseUrl : Option String} {sound : σ → Prop}
    (serves : space.Serves baseUrl sound) {draft : PageDraft} {state : σ}
    (before : sound state)
    (calm : SaveCall.Succeeded ⟨draft, (space.save draft state).1⟩) :
    (space.save draft state).1 = .ok (pageUrl baseUrl draft.key) := by
  obtain ⟨url, answer⟩ := calm
  exact serves.saved draft state url before answer ▸ answer

/-! ## Tables -/

/-- The entries of tables whose pages were all saved. -/
def publishedEntries (baseUrl : Option String) (settings : DbConfig)
    (tables : Assoc TableSchema) : List IndexEntry :=
  tables.map fun (name, schema) =>
    tableEntry name schema (pageUrl baseUrl (pageKey settings.path name))

def publishedReport (baseUrl : Option String) (settings : DbConfig)
    (tables : Assoc TableSchema) : BuildReport where
  index :=
    (tableIndexDraft settings (publishedEntries baseUrl settings tables)).content
  entries := publishedEntries baseUrl settings tables
  failed := 0

/-- The pages of a database, that of its index last. -/
def databaseDrafts (baseUrl : Option String) (settings : DbConfig)
    (database : String) (tables : Assoc TableSchema) : List PageDraft :=
  tableDrafts settings database tables firstUnitOrder ++
    [tableIndexDraft settings (publishedEntries baseUrl settings tables)]

def databaseFindings (baseUrl : Option String) (settings : DbConfig)
    (database : String) (tables : Assoc TableSchema) : List Finding :=
  tables.flatMap (fun (name, schema) =>
      (Page.ofTable (database ++ "." ++ name) schema).findings) ++
    (Page.ofIndex "表名" settings.groups
      (publishedEntries baseUrl settings tables)).findings

/-- The databases of a registry that the configuration knows, with their
settings. -/
def configuredTables (config : Config) (registry : TableRegistry) :
    List (String × DbConfig × Assoc TableSchema) :=
  registry.filterMap fun (database, tables) =>
    (Assoc.get? database config.db).map fun settings =>
      (database, settings, tables)

def publishedReports (baseUrl : Option String) (config : Config)
    (registry : TableRegistry) : Assoc BuildReport :=
  (configuredTables config registry).map fun (database, settings, tables) =>
    (database, publishedReport baseUrl settings tables)

def registryDrafts (baseUrl : Option String) (config : Config)
    (registry : TableRegistry) : List PageDraft :=
  (configuredTables config registry).flatMap
    fun (database, settings, tables) =>
      databaseDrafts baseUrl settings database tables

def registryFindings (baseUrl : Option String) (config : Config)
    (registry : TableRegistry) : List Finding :=
  registry.flatMap fun (database, tables) =>
    match Assoc.get? database config.db with
    | none => [.unconfiguredDatabase database]
    | some settings => databaseFindings baseUrl settings database tables

section Tables

variable {space : Workspace σ} {baseUrl : Option String} {sound : σ → Prop}
  {state : σ}

theorem saveEach_keeps {holds : σ → Prop} (keeps : space.Keeps holds)
    (drafts : List PageDraft) (before : holds state) :
    holds (space.saveEach drafts state).2 := by
  induction drafts generalizing state with
  | nil => exact before
  | cons draft rest ih => exact ih (keeps.save draft state before)

theorem saveEach_calm (serves : space.Serves baseUrl sound)
    {drafts : List PageDraft} (before : sound state)
    (calm : ∀ call ∈ (space.saveEach drafts state).1, call.Succeeded) :
    (space.saveEach drafts state).1 =
      drafts.map (SaveCall.published baseUrl) := by
  induction drafts generalizing state with
  | nil => rfl
  | cons draft rest ih =>
      have own := serves.answer before (calm _ List.mem_cons_self)
      have later := ih (serves.keeps.save draft state before)
        fun call member => calm call (List.mem_cons_of_mem _ member)
      rw [Workspace.saveEach, List.map_cons, ← later, SaveCall.published, ← own]

theorem tableUnits_published (settings : DbConfig) (database : String)
    (tables : Assoc TableSchema) (order : Nat) (after : σ) :
    tableUnits database tables
        ((tableDrafts settings database tables order).map
          (SaveCall.published baseUrl)) after =
      { entries := publishedEntries baseUrl settings tables
        failed := 0
        findings := tables.flatMap fun (name, schema) =>
          (Page.ofTable (database ++ "." ++ name) schema).findings
        state := after } := by
  induction tables generalizing order with
  | nil => rfl
  | cons table rest ih =>
      have drafts : tableDrafts settings database (table :: rest) order =
          tableDraft settings database table order ::
            tableDrafts settings database rest (order + 1) := rfl
      have tail := ih (order + 1)
      simp only [tableUnits, UnitRuns.mk.injEq] at tail
      obtain ⟨entries, failed, findings, _⟩ := tail
      simp only [drafts, tableUnits, List.map_cons, List.zipWith_cons_cons,
        tableEntry?, tableFindings, SaveCall.published, valueOf?_ok,
        errorOf?_ok, List.flatMap_cons, List.filterMap_cons, Option.map_some,
        Option.toList_some, List.flatten_cons, Option.toList_none,
        List.map_nil, List.append_nil]
      rw [entries, failed, findings]
      rfl

theorem databasePass_calm (serves : space.Serves baseUrl sound)
    {settings : DbConfig} {database : String} {tables : Assoc TableSchema}
    (before : sound state)
    (calm : ∀ call ∈ databaseCalls space settings database tables state,
      call.Succeeded) :
    let run := databasePass space settings database tables state
    run.report = publishedReport baseUrl settings tables ∧
      run.findings = databaseFindings baseUrl settings database tables ∧
      databaseCalls space settings database tables state =
        (databaseDrafts baseUrl settings database tables).map
          (SaveCall.published baseUrl) := by
  have units := saveEach_calm serves before fun call member =>
    calm call (List.mem_append_left _ member)
  have middle := saveEach_keeps serves.keeps
    (tableDrafts settings database tables firstUnitOrder) before
  simp only [databaseCalls, databasePass_eq, units, tableUnits_published]
    at calm ⊢
  have answer := serves.answer middle
    (calm _ (List.mem_append_right _ List.mem_cons_self))
  refine ⟨rfl, ?_, ?_⟩
  · rw [answer]
    exact List.append_nil _
  · rw [answer, databaseDrafts, List.map_append]
    rfl

/-- A pass over tables follows from its registry where no save is refused. -/
theorem registryPass_calm (serves : space.Serves baseUrl sound)
    {config : Config} {registry : TableRegistry} (before : sound state)
    (calm : ∀ call ∈ registryCalls space config registry state,
      call.Succeeded) :
    let run := registryPass space config registry state
    run.report = publishedReports baseUrl config registry ∧
      run.findings = registryFindings baseUrl config registry ∧
      registryCalls space config registry state =
        (registryDrafts baseUrl config registry).map
          (SaveCall.published baseUrl) := by
  induction registry generalizing state with
  | nil => exact ⟨rfl, rfl, rfl⟩
  | cons entry rest ih =>
      obtain ⟨database, tables⟩ := entry
      rw [registryCalls] at calm ⊢
      rw [registryPass]
      cases configured : Assoc.get? database config.db with
      | none =>
          rw [configured] at calm
          obtain ⟨reports, findings, calls⟩ := ih before calm
          refine ⟨?_, ?_, ?_⟩
          · simp [reports, publishedReports, configuredTables, configured]
          · simp [findings, registryFindings, configured]
          · simp [calls, registryDrafts, configuredTables, configured]
      | some settings =>
          rw [configured] at calm
          obtain ⟨report, own, calls⟩ := databasePass_calm serves before
            fun call member => calm call (List.mem_append_left _ member)
          have middle := databasePass_keeps serves.keeps settings database
            tables before
          obtain ⟨reports, others, later⟩ := ih middle
            fun call member => calm call (List.mem_append_right _ member)
          refine ⟨?_, ?_, ?_⟩
          · simp [report, reports, publishedReports, configuredTables,
              configured]
          · simp [own, others, registryFindings, configured]
          · simp [calls, later, registryDrafts, configuredTables, configured]

end Tables

end TagDoc
