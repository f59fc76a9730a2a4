import TagDoc.Proofs.DryRuns

/-!
# Whose page a key has after a pass

Every entry of a report has a page that was saved for its unit, and every
report one that was saved for its index.  A key does not tell units apart that
share a directory and a name, so of several pages of a pass with one key the
store has the last: `ownPages_last`.
-/

namespace TagDoc

variable {δ : Type}

/-! ## The pages of units and indexes -/

/-- A unit of a registry, by the report it belongs to, has an entry and a page:
what is rendered for that very unit, in the place that the unit has in its
registry. -/
inductive Units.Documents (config : Config) (baseUrl : Option String)
    (sources : String → Except Failure String) :
    Units → String → IndexEntry → PageDraft → Prop where
  | route {listed : List Route} {index : Nat} {route : Route} {text : String}
      {doc : Diagnosed DocComment} {pages : PageIndex} :
      listed[index]? = some route →
      sources (handlerUnit config route) = .ok text →
      DocComment.ofSource? (handlerUnit config route) text = some doc →
      Documents config baseUrl sources (.routes listed) "api"
        (routeEntry route doc.value
          (pageUrl baseUrl (pageKey config.api.docPath route.path)))
        (routeDraft config route (firstUnitOrder + index) doc.value pages)
  | table {registry : TableRegistry} {database name : String}
      {tables : Assoc TableSchema} {settings : DbConfig} {index : Nat}
      {schema : TableSchema} :
      (database, tables) ∈ registry →
      Assoc.get? database config.db = some settings →
      tables[index]? = some (name, schema) →
      Documents config baseUrl sources (.tables registry) database
        (tableEntry name schema
          (pageUrl baseUrl (pageKey settings.path name)))
        (tableDraft settings database (name, schema) (firstUnitOrder + index))

/-- The page of the index of a report. -/
inductive Units.Lists (config : Config) :
    Units → String → BuildReport → PageDraft → Prop where
  | routes {listed : List Route} {report : BuildReport} :
      Lists config (.routes listed) "api" report
        ⟨config.api.indexPath, config.api.indexName, report.index, indexOrder⟩
  | tables {registry : TableRegistry} {database : String}
      {settings : DbConfig} {report : BuildReport} :
      Assoc.get? database config.db = some settings →
      Lists config (.tables registry) database report
        ⟨settings.path, settings.indexName, report.index, indexOrder⟩

/-! ## Saved pages -/

section Saved

variable {config : Config} {baseUrl : Option String}
  {sources : String → Except Failure String}

theorem exists_routeDraft {seen : PageIndex → Prop} {routes : List Route}
    {outcomes : List RouteOutcome} {entry : IndexEntry}
    (calm : List.Forall₂ (RouteOutcome.Calm config baseUrl sources seen) routes
      outcomes)
    (order : Nat) (member : entry ∈ routeEntries config routes outcomes) :
    ∃ (index : Nat) (route : Route) (text : String)
        (doc : Diagnosed DocComment) (pages : PageIndex),
      routes[index]? = some route ∧
        sources (handlerUnit config route) = .ok text ∧
        DocComment.ofSource? (handlerUnit config route) text = some doc ∧
        entry = routeEntry route doc.value
          (pageUrl baseUrl (pageKey config.api.docPath route.path)) ∧
        routeDraft config route (order + index) doc.value pages ∈
          (routeSaves config routes order outcomes).map SaveCall.draft := by
  induction calm generalizing order with
  | nil => cases member
  | @cons route outcome rest outcomes first _ ih =>
      rw [routeEntries_cons] at member
      rw [routeSaves_cons, List.map_append]
      rcases List.mem_append.mp member with here | later
      · cases first with
        | unreadable read => simp [RouteOutcome.result] at here
        | uncommented read block => simp [RouteOutcome.result] at here
        | @rendered text doc pages read block _ =>
            have same : entry = routeEntry route doc.value
                (pageUrl baseUrl (pageKey config.api.docPath route.path)) := by
              simpa [RouteOutcome.result] using here
            refine ⟨0, route, text, doc, pages, rfl, read, block, same, ?_⟩
            exact List.mem_append_left _ List.mem_cons_self
      · obtain ⟨index, other, text, doc, pages, listed, read, block, same,
          saved⟩ := ih (order + 1) later
        refine ⟨index + 1, other, text, doc, pages, listed, read, block, same,
          List.mem_append_right _ ?_⟩
        rwa [show order + (index + 1) = order + 1 + index by omega]

theorem exists_tableDraft {settings : DbConfig} {tables : Assoc TableSchema}
    {entry : IndexEntry} (database : String) (order : Nat)
    (member : entry ∈ publishedEntries baseUrl settings tables) :
    ∃ (index : Nat) (name : String) (schema : TableSchema),
      tables[index]? = some (name, schema) ∧
        entry = tableEntry name schema
          (pageUrl baseUrl (pageKey settings.path name)) ∧
        tableDraft settings database (name, schema) (order + index) ∈
          tableDrafts settings database tables order := by
  obtain ⟨⟨name, schema⟩, listed, rfl⟩ := List.mem_map.mp member
  obtain ⟨index, found⟩ := List.getElem?_of_mem listed
  exact ⟨index, name, schema, found, rfl,
    List.mem_map.mpr ⟨_, List.mk_add_mem_zipIdx_iff_getElem?.mpr found, rfl⟩⟩

end Saved

/-- Every entry of a report has a page among the saved ones, and so has the
report's index. -/
theorem Units.exists_saved (disk : Disk δ) (config : Config) (units : Units)
    (store : MemoryStore) (files : δ) {name : String} {report : BuildReport}
    (reported : (name, report) ∈ (units.pass (MemoryStore.workspace disk) config
      (store, files)).report) :
    let saved := (units.saves (MemoryStore.workspace disk) config
      (store, files)).map SaveCall.draft
    (∀ entry ∈ report.entries, ∃ draft ∈ saved,
      units.Documents config store.baseUrl (disk.source files) name entry
        draft) ∧
    ∃ draft ∈ saved, units.Lists config name report draft := by
  intro saved
  cases units with
  | routes listed =>
      obtain ⟨outcomes, final, calm, _⟩ :=
        MemoryStore.exists_calmPass disk config listed store files
      have drafts : saved = routeDrafts config listed outcomes := by
        simp only [saved, Units.saves_routes calm,
          SaveCall.map_draft_published]
      rw [drafts]
      simp only [Units.pass, List.mem_singleton, Prod.mk.injEq] at reported
      obtain ⟨rfl, rfl⟩ := reported
      rw [calm.apiPass_eq]
      refine ⟨?_, ?_⟩
      · intro entry member
        obtain ⟨index, route, text, doc, pages, found, read, block, rfl,
          made⟩ := exists_routeDraft calm.calm firstUnitOrder member
        exact ⟨_, List.mem_append_left _ made, .route found read block⟩
      · exact ⟨_, List.mem_append_right _ List.mem_cons_self, .routes⟩
  | tables registry =>
      have drafts : saved = registryDrafts store.baseUrl config registry := by
        obtain ⟨_, _, calls⟩ :=
          MemoryStore.registryCalls_eq disk config registry store files
        simp only [saved, Units.saves_tables, calls,
          SaveCall.map_draft_published]
      rw [drafts]
      rw [Units.pass, MemoryStore.registryPass_eq] at reported
      obtain ⟨⟨database, settings, tables⟩, configured, same⟩ :=
        List.mem_map.mp reported
      obtain ⟨rfl, rfl⟩ := Prod.mk.inj same
      obtain ⟨⟨_, _⟩, listed, known⟩ := List.mem_filterMap.mp configured
      obtain ⟨_, found, same⟩ := Option.map_eq_some_iff.mp known
      cases same
      have among {draft : PageDraft} (own : draft ∈
          databaseDrafts store.baseUrl settings database tables) :
          draft ∈ registryDrafts store.baseUrl config registry :=
        List.mem_flatMap.mpr ⟨_, configured, own⟩
      refine ⟨?_, ?_⟩
      · intro entry member
        obtain ⟨index, name, schema, here, rfl, made⟩ :=
          exists_tableDraft database firstUnitOrder member
        exact ⟨_, among (List.mem_append_left _ made), .table listed found here⟩
      · exact ⟨_, among (List.mem_append_right _ List.mem_cons_self),
          .tables found⟩

theorem Units.exists_saved_routes (disk : Disk δ) (config : Config)
    (listed : List Route) (store : MemoryStore) (files : δ) :
    let report := (apiPass (MemoryStore.workspace disk) config listed
      (store, files)).report
    ∃ earlier, ((Units.routes listed).saves (MemoryStore.workspace disk) config
        (store, files)).map SaveCall.draft =
      earlier ++
        [⟨config.api.indexPath, config.api.indexName, report.index, 1⟩] := by
  obtain ⟨outcomes, final, runs⟩ := exists_routeRuns
    (MemoryStore.workspace disk) config listed firstUnitOrder (store, files)
  refine ⟨(routeSaves config listed firstUnitOrder outcomes).map
    SaveCall.draft, ?_⟩
  simp only [Units.saves, Units.pass, runs.apiPass_logged, List.nil_append,
    List.map_append, runs.apiPass_eq, accountOf]
  rfl

/-! ## Pages in the store -/

namespace MemoryStore

/-- The store has a page as it was saved, under its key. -/
def Holds (store : MemoryStore) (draft : PageDraft) : Prop :=
  Assoc.get? draft.key store.pages =
    some ⟨draft.content, draft.order, pageUrl store.baseUrl draft.key⟩

theorem holds_saveAll {before after : List PageDraft} {draft : PageDraft}
    (last : ∀ later ∈ after, later.key ≠ draft.key) (store : MemoryStore) :
    (store.saveAll (before ++ draft :: after)).Holds draft := by
  have never : (stored store.baseUrl draft).1 ∉
      Assoc.keys (after.map (stored store.baseUrl)) := by
    intro member
    rw [Assoc.keys, List.map_map] at member
    obtain ⟨later, among, same⟩ := List.mem_map.mp member
    simp only [Function.comp_apply, stored] at same
    exact last later among same
  have found : Assoc.get? (stored store.baseUrl draft).1
      (Assoc.putAll (before.map (stored store.baseUrl) ++
        stored store.baseUrl draft :: after.map (stored store.baseUrl))
        store.pages) = some (stored store.baseUrl draft).2 :=
    Assoc.get?_putAll_of_last store.pages never
  simpa only [Holds, saveAll, List.map_append, List.map_cons, stored] using found

theorem holds_or_later (before : List PageDraft) (draft : PageDraft)
    (after : List PageDraft) (store : MemoryStore) :
    (store.saveAll (before ++ draft :: after)).Holds draft ∨
      ∃ later ∈ after, later.key = draft.key ∧
        (store.saveAll (before ++ draft :: after)).Holds later := by
  by_cases last : ∀ later ∈ after, later.key ≠ draft.key
  · exact .inl (holds_saveAll last store)
  · simp only [ne_eq, not_forall, not_not] at last
    obtain ⟨later, member, same⟩ := last
    obtain ⟨between, rest, rfl⟩ := List.append_of_mem member
    have shorter : rest.length < (between ++ later :: rest).length := by
      simp only [List.length_append, List.length_cons]
      omega
    have regroup : before ++ draft :: (between ++ later :: rest) =
        (before ++ draft :: between) ++ later :: rest := by
      simp only [List.append_assoc, List.cons_append]
    rw [regroup]
    rcases holds_or_later (before ++ draft :: between) later rest store with
      held | ⟨final, among, equal, held⟩
    · exact .inr ⟨later, member, same, held⟩
    · exact .inr ⟨final,
        List.mem_append_right _ (List.mem_cons_of_mem _ among),
        equal.trans same, held⟩
termination_by after.length

theorem pass_state (disk : Disk δ) (config : Config) (units : Units)
    (store : MemoryStore) (files : δ) :
    (units.pass (workspace disk) config (store, files)).state =
      (store.saveAll ((units.saves (workspace disk) config
        (store, files)).map SaveCall.draft), files) := by
  have logs := units.pass_keeps (keeps_logs disk store files) config
    (logs_nil store files)
  rw [Units.pass_logged] at logs
  exact logs.pages

/-- Every entry of a report has a page of its own in the store, and so has
every index. -/
def OwnPages (config : Config) (sources : String → Except Failure String)
    (units : Units) (store : MemoryStore) (reports : Assoc BuildReport) :
    Prop :=
  ∀ name report, (name, report) ∈ reports →
    (∀ entry ∈ report.entries, ∃ draft,
      units.Documents config store.baseUrl sources name entry draft ∧
        store.Holds draft) ∧
    ∃ draft, units.Lists config name report draft ∧ store.Holds draft

end MemoryStore

/-- The pages of a pass into a memory store.  Each entry of a report has a page
that was saved for its unit, with what is rendered for this unit and with the
display order of its place, and each report one for its index.  Of the pages
with one key the store has the last: any page of the pass is there unless a
later one has its key, and then such a one is there instead.  Hence the index
of routes, which comes last, is always there, and all pages are when their keys
differ. -/
theorem ownPages_last (disk : Disk δ) (config : Config) (units : Units)
    (store : MemoryStore) (files : δ) :
    let run := units.pass (MemoryStore.workspace disk) config (store, files)
    let saved := (units.saves (MemoryStore.workspace disk) config
      (store, files)).map SaveCall.draft
    (∀ name report, (name, report) ∈ run.report →
      (∀ entry ∈ report.entries, ∃ draft ∈ saved,
        units.Documents config store.baseUrl (disk.source files) name entry
          draft) ∧
      ∃ draft ∈ saved, units.Lists config name report draft) ∧
    (∀ before draft after, saved = before ++ draft :: after →
      run.state.1.Holds draft ∨
        ∃ later ∈ after, later.key = draft.key ∧ run.state.1.Holds later) ∧
    (∀ listed report, units = .routes listed → ("api", report) ∈ run.report →
      run.state.1.Holds
        ⟨config.api.indexPath, config.api.indexName, report.index, 1⟩) ∧
    ((saved.map PageDraft.key).Nodup →
      run.state.1.OwnPages config (disk.source files) units run.report) := by
  intro run saved
  have stored : run.state.1 = store.saveAll saved :=
    congrArg Prod.fst (MemoryStore.pass_state disk config units store files)
  have made (name : String) (report : BuildReport)
      (reported : (name, report) ∈ run.report) :=
    Units.exists_saved disk config units store files reported
  have held (before : List PageDraft) (draft : PageDraft)
      (after : List PageDraft) (split : saved = before ++ draft :: after) :
      run.state.1.Holds draft ∨
        ∃ later ∈ after, later.key = draft.key ∧ run.state.1.Holds later := by
    rw [stored, split]
    exact MemoryStore.holds_or_later before draft after store
  refine ⟨made, held, ?_, ?_⟩
  · rintro listed report rfl reported
    obtain ⟨earlier, split⟩ :=
      Units.exists_saved_routes disk config listed store files
    have own : run.report = [("api", (apiPass (MemoryStore.workspace disk)
      config listed (store, files)).report)] := rfl
    rw [own, List.mem_singleton, Prod.mk.injEq] at reported
    rw [← reported.2] at split
    rcases held earlier _ [] split with there | ⟨later, member, _⟩
    · exact there
    · cases member
  · intro distinct
    have everyHeld : ∀ draft ∈ saved, run.state.1.Holds draft := by
      intro draft member
      obtain ⟨before, after, split⟩ := List.append_of_mem member
      rcases held before draft after split with there | ⟨later, among, same, _⟩
      · exact there
      · rw [split, List.map_append, List.map_cons] at distinct
        have apart := (List.nodup_cons.mp
          (List.nodup_append.mp distinct).2.1).1
        exact (apart (same ▸ List.mem_map_of_mem among)).elim
    have base : run.state.1.baseUrl = store.baseUrl := by rw [stored]; rfl
    intro name report reported
    obtain ⟨entries, index⟩ := made name report reported
    rw [base]
    refine ⟨?_, ?_⟩
    · intro entry member
      obtain ⟨draft, saved, documents⟩ := entries entry member
      exact ⟨draft, documents, everyHeld draft saved⟩
    · obtain ⟨draft, saved, lists⟩ := index
      exact ⟨draft, lists, everyHeld draft saved⟩

/-- Two methods of one path share a page: the second route takes it. -/
theorem not_ownPages_methods :
    let routes :=
      "[\x7b\"key\": \"list\", \"path\": \"/user\", \"method\": \"GET\"\x7d, " ++
        "\x7b\"key\": \"create\", \"path\": \"/user\", \"method\": \"POST\"\x7d]"
    let files := FileSystem.ofEntries
      [("list.js", .file (.readable "/** List users. */")),
        ("create.js", .file (.readable "/** Create a user. */"))]
    let config : Config := {}
    ∃ listed,
      Invocation.registryOfText (Route.registry .text) "routes.json" routes =
        .ok listed ∧
      let run := (Units.routes listed).pass
        (MemoryStore.workspace FileSystem.disk) config ({}, files)
      ¬ run.state.1.OwnPages config (FileSystem.disk.source files)
        (.routes listed) run.report := by
  intro routes files config
  let named : List (String × String × String) :=
    [("list", "/user", "GET"), ("create", "/user", "POST")]
  have decoded : ((Invocation.registryOfText (Route.registry .text)
      "routes.json" routes).toOption.map (List.map Route.bare?)) =
        some (named.map some) := by
    decide +kernel
  refine ⟨_, Route.ok_bare decoded, ?_⟩
  intro run own
  let first : IndexEntry := ⟨"/user", defaultGroup, "List users.", "api/user.md"⟩
  let second : IndexEntry :=
    ⟨"/user", defaultGroup, "Create a user.", "api/user.md"⟩
  have reported : ("api", ⟨"", [first, second], 0⟩) ∈ run.report := by
    decide +kernel
  have kept : (Assoc.get? "api/user" run.state.1.pages).map StoredPage.order =
      some 3 := by
    decide +kernel
  have created : ((FileSystem.disk.source files "./create.js").toOption.bind
      fun text => (DocComment.ofSource? "./create.js" text).map fun doc =>
        doc.value.description) = some "Create a user." := by
    decide +kernel
  obtain ⟨draft, documents, held⟩ :=
    (own _ _ reported).1 first List.mem_cons_self
  generalize same : first = entry at documents
  cases documents with
  | @route _ index route text doc pages found read block =>
      have description := congrArg IndexEntry.description same
      rcases index with _ | _ | index
      · cases found
        have key : (routeDraft config (.bare "list" "/user" "GET")
            (firstUnitOrder + 0) doc.value pages).key = "api/user" := by
          change pageKey "api" "/user" = "api/user"
          decide +kernel
        rw [MemoryStore.Holds, key] at held
        rw [held] at kept
        cases kept
      · cases found
        have unit : handlerUnit config (.bare "create" "/user" "POST") =
            "./create.js" := by
          decide +kernel
        rw [unit] at read block
        rw [read] at created
        simp only [Except.toOption, Option.bind_some, block, Option.map_some,
          Option.some.injEq] at created
        exact absurd (description.trans created) (by decide)
      · cases found

end TagDoc
