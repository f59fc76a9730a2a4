import TagDoc.Proofs.MemoryRuns
import TagDoc.Proofs.Stores
import TagDoc.Proofs.Units

/-!
# Dry runs

A dry run documents into a fresh memory store what a real run documents into
the output directory.  Their page indexes differ, but where nothing is refused
the reports and the findings do not depend on them: `Units.pass_eq_memory`.  So
both commands end alike, and the dry run prints the index pages that the real
one saves: `dryRun_agrees`.
-/

namespace TagDoc

variable {σ δ : Type}

/-! ## The texts of index pages -/

/-- The texts of the index pages among saved pages. -/
def indexTexts (drafts : List PageDraft) : List String :=
  (drafts.filter fun draft => draft.order = indexOrder).map PageDraft.content

theorem indexTexts_append (first second : List PageDraft) :
    indexTexts (first ++ second) = indexTexts first ++ indexTexts second := by
  rw [indexTexts, List.filter_append, List.map_append, indexTexts, indexTexts]

theorem indexTexts_units {drafts : List PageDraft}
    (units : ∀ draft ∈ drafts, firstUnitOrder ≤ draft.order) :
    indexTexts drafts = [] := by
  have none : drafts.filter (fun draft => draft.order = indexOrder) = [] := by
    apply List.filter_eq_nil_iff.mpr
    intro draft member
    have later := units draft member
    have other : draft.order ≠ indexOrder := by
      rw [firstUnitOrder] at later
      rw [indexOrder]
      omega
    simpa using other
  rw [indexTexts, none, List.map_nil]

theorem order_routeSaves {config : Config} {routes : List Route} {order : Nat}
    {outcomes : List RouteOutcome} {call : SaveCall}
    (member : call ∈ routeSaves config routes order outcomes) :
    order ≤ call.draft.order := by
  rw [routeSaves, List.mem_filterMap] at member
  obtain ⟨⟨⟨route, outcome⟩, own⟩, listed, made⟩ := member
  have later := List.le_snd_of_mem_zipIdx listed
  cases outcome with
  | unreadable failure => cases made
  | uncommented => cases made
  | offline doc failure => cases made
  | rendered doc pages saved =>
      cases made
      exact later

theorem order_tableDrafts {settings : DbConfig} {database : String}
    {tables : Assoc TableSchema} {order : Nat} {draft : PageDraft}
    (member : draft ∈ tableDrafts settings database tables order) :
    order ≤ draft.order := by
  obtain ⟨⟨table, own⟩, listed, rfl⟩ := List.mem_map.mp member
  exact List.le_snd_of_mem_zipIdx listed

theorem indexTexts_routeDrafts (config : Config) (routes : List Route)
    (outcomes : List RouteOutcome) :
    indexTexts (routeDrafts config routes outcomes) =
      [(routeIndexDraft config (routeEntries config routes outcomes)).content] := by
  have units : indexTexts ((routeSaves config routes firstUnitOrder
      outcomes).map SaveCall.draft) = [] := by
    apply indexTexts_units
    intro draft member
    obtain ⟨call, saved, rfl⟩ := List.mem_map.mp member
    exact order_routeSaves saved
  rw [routeDrafts, indexTexts_append, units, List.nil_append]
  rfl

theorem indexTexts_databaseDrafts (baseUrl : Option String)
    (settings : DbConfig) (database : String) (tables : Assoc TableSchema) :
    indexTexts (databaseDrafts baseUrl settings database tables) =
      [(publishedReport baseUrl settings tables).index] := by
  have units : indexTexts (tableDrafts settings database tables
      firstUnitOrder) = [] :=
    indexTexts_units fun _ member => order_tableDrafts member
  rw [databaseDrafts, indexTexts_append, units, List.nil_append]
  rfl

theorem indexTexts_registryDrafts (baseUrl : Option String) (config : Config)
    (registry : TableRegistry) :
    indexTexts (registryDrafts baseUrl config registry) =
      (publishedReports baseUrl config registry).map
        fun (_, report) => report.index := by
  rw [registryDrafts, publishedReports]
  induction configuredTables config registry with
  | nil => rfl
  | cons first rest ih =>
      obtain ⟨database, settings, tables⟩ := first
      rw [List.flatMap_cons, indexTexts_append, ih, indexTexts_databaseDrafts]
      rfl

/-! ## Passes into memory and elsewhere -/

/-- Every handler source that the pass reads is what it is said to be. -/
def Units.SourcesRead (space : Workspace σ) (config : Config)
    (sources : String → Except Failure String) (units : Units) (state : σ) :
    Prop :=
  match units with
  | .routes listed =>
      TagDoc.SourcesRead space config sources listed firstUnitOrder state
  | .tables _ => True

/-- Where nothing is refused, a pass reports what the same pass into a memory
store reports, and the texts of its reports are those of the index pages that
it saves. -/
theorem Units.pass_eq_memory {space : Workspace σ} {baseUrl : Option String}
    {sound : σ → Prop} {config : Config} {units : Units} {state : σ}
    (serves : space.Serves baseUrl sound) (before : sound state)
    (disk : Disk δ) (files : δ)
    (sources : units.SourcesRead space config (disk.source files) state)
    (succeeded : ∀ call ∈ units.saves space config state, call.Succeeded) :
    let run := units.pass space config state
    let dry := units.pass (MemoryStore.workspace disk) config
      ({ baseUrl }, files)
    dry.report = run.report ∧ dry.findings = run.findings ∧
      dry.state.2 = files ∧
      (run.report.map fun (_, report) => report.index) =
        indexTexts ((units.saves space config state).map SaveCall.draft) := by
  intro run dry
  cases units with
  | tables registry =>
      rw [Units.saves_tables] at succeeded ⊢
      obtain ⟨report, findings, published⟩ :=
        registryPass_calm serves before succeeded
      simp only [run, dry, Units.pass, MemoryStore.registryPass_eq, report,
        findings, published, SaveCall.map_draft_published,
        indexTexts_registryDrafts, and_self]
  | routes listed =>
      obtain ⟨outcomes, final, runs⟩ :=
        exists_routeRuns space config listed firstUnitOrder state
      have calm := runs.calmPass serves (fun _ => id)
        (fun _ _ _ _ => trivial : ∀ _ _, _ → _ → True)
        serves.keeps.pages (fun call _ => serves.keeps.save call.draft)
        sources succeeded before
      obtain ⟨_, _, memory, stored⟩ := MemoryStore.exists_calmPass disk config
        listed { baseUrl } files
      have report := memory.report_eq calm
      have findings := memory.findings_eq calm
      rw [Units.saves_routes calm, SaveCall.map_draft_published,
        indexTexts_routeDrafts]
      simp only [run, dry, Units.pass, report, findings, stored, true_and,
        List.map_cons, List.map_nil]
      rw [calm.apiPass_eq]

/-! ## The store on disk -/

namespace DiskStore

/-- A store on any disk gives its page index and the URLs of the pages' keys. -/
theorem serves (disk : Disk δ) (baseUrl : Option String) :
    (workspace disk).Serves baseUrl fun state => state.1.baseUrl = baseUrl where
  keeps :=
    { pages := fun _ sound => sound
      save := by
        rintro draft ⟨store, files⟩ rfl
        rw [save_workspace]
        exact baseUrl_save disk draft store files }
  pages _ _ := ⟨_, rfl⟩
  saved := by
    rintro draft ⟨store, files⟩ url rfl answer
    rw [save_workspace] at answer
    exact url_save answer

theorem baseUrl_load {disk : Disk δ} {root : String} {baseUrl : Option String}
    {store : DiskStore} {files opened : δ}
    (loaded : load disk root baseUrl files = (.ok store, opened)) :
    store.baseUrl = baseUrl :=
  (takeUp_eq_ok.mp (load_eq_ok_iff.mp loaded).2).2.1

end DiskStore

/-! ## Commands -/

namespace Invocation

variable {disk : Disk δ} {colored : Bool} {invocation : Invocation}
  {config : Config} {files opened : δ} {units : Units}

theorem runOn_dry (dry : invocation.dryRun = true)
    (loaded : invocation.loadConfig disk files = .ok config)
    (read : Units.ofRegistry (disk.source files) invocation.registry =
      .ok units) :
    let run := units.pass (MemoryStore.workspace disk) config
      ({ baseUrl := config.baseUrl }, files)
    invocation.runOn disk colored files =
      (invocation.conclude colored (indexText run.report)
        (Diagnostics.empty.clear.record run.findings), files) := by
  intro run
  have documented : document (MemoryStore.workspace disk) config
      invocation.registry ({ baseUrl := config.baseUrl }, files) = _ :=
    document_eq read
  rw [runOn, loaded]
  simp only [dry, if_true, dryRunOn, documented]
  rfl

theorem runOn_real {store : DiskStore} (real : invocation.dryRun = false)
    (loaded : invocation.loadConfig disk files = .ok config)
    (opens : DiskStore.load disk config.output config.baseUrl files =
      (.ok store, opened))
    (read : Units.ofRegistry (disk.source opened) invocation.registry =
      .ok units) :
    let run := units.pass (DiskStore.workspace disk) config (store, opened)
    invocation.runOn disk colored files =
      (invocation.conclude colored ""
        (Diagnostics.empty.clear.record run.findings), run.state.2) := by
  intro run
  have documented : document (DiskStore.workspace disk) config
      invocation.registry (store, opened) = _ := document_eq read
  rw [runOn, loaded]
  simp only [real, Bool.false_eq_true, if_false, publishOn, opens, documented]
  rfl

theorem conclude_eq (stdout : String) (collected : Diagnostics) :
    invocation.conclude colored stdout collected =
      { invocation.conclude colored "" collected with stdout } := by
  unfold conclude
  dsimp only
  split <;> rfl

end Invocation

/-- A dry run agrees with the real run when no operation of the disk store
fails and the pass finds its registry and its sources as they were before it.
Reports and findings are the same, so both end with the same code and the same
messages, strict or not; the dry run prints the texts of the index pages that
the real run saves, in their order, and leaves the disk as it was. -/
theorem dryRun_agrees (disk : Disk δ) (colored strict : Bool)
    (invocation : Invocation) (config : Config) (units : Units)
    (store : DiskStore) (files opened : δ)
    (loaded : invocation.loadConfig disk files = .ok config)
    (opens : DiskStore.load disk config.output config.baseUrl files =
      (.ok store, opened))
    (read : Units.ofRegistry (disk.source files) invocation.registry =
      .ok units)
    (kept : Units.ofRegistry (disk.source opened) invocation.registry =
      .ok units)
    (sources : units.SourcesRead (DiskStore.workspace disk) config
      (disk.source files) (store, opened))
    (succeeded : ∀ call ∈
      units.saves (DiskStore.workspace disk) config (store, opened),
      call.Succeeded) :
    let dry := units.pass (MemoryStore.workspace disk) config
      ({ baseUrl := config.baseUrl }, files)
    let real := units.pass (DiskStore.workspace disk) config (store, opened)
    let saved := units.saves (DiskStore.workspace disk) config (store, opened)
    let dryRun :=
      { invocation with dryRun := true, strict }.runOn disk colored files
    let realRun :=
      { invocation with dryRun := false, strict }.runOn disk colored files
    dry.report = real.report ∧ dry.findings = real.findings ∧
      dry.state.2 = files ∧ dryRun.2 = files ∧
      dryRun.1.code = realRun.1.code ∧ dryRun.1.stderr = realRun.1.stderr ∧
      dryRun.1.stdout =
        String.join ((saved.filter fun call =>
          call.draft.order = indexOrder).map fun call => call.draft.content) := by
  intro dry real saved dryRun realRun
  obtain ⟨report, findings, untouched, texts⟩ := Units.pass_eq_memory
    (DiskStore.serves disk config.baseUrl) (DiskStore.baseUrl_load opens) disk
    files sources succeeded
  have dryEnd : dryRun =
      ({ invocation with dryRun := true, strict }.conclude colored
        (indexText dry.report)
        (Diagnostics.empty.clear.record dry.findings), files) :=
    Invocation.runOn_dry rfl loaded read
  have realEnd : realRun =
      ({ invocation with dryRun := false, strict }.conclude colored ""
        (Diagnostics.empty.clear.record real.findings), real.state.2) :=
    Invocation.runOn_real rfl loaded opens kept
  rw [dryEnd, realEnd, findings, Invocation.conclude_eq (indexText dry.report)]
  refine ⟨report, rfl, untouched, rfl, rfl, rfl, ?_⟩
  rw [report, indexText, texts, indexTexts, List.filter_map, List.map_map]
  rfl

/-- The page index in the directory links a table that a fresh store does not
know; both runs fail alike under `strict`. -/
theorem dryRun_agrees_linked :
    let routes :=
      "[\x7b\"key\": \"pay\", \"path\": \"/pay\", \"method\": \"POST\"\x7d]"
    let files := FileSystem.ofEntries
      [("apidoc.toml", .file (.readable "[db.shop]\npath = \"db\"\n")),
        ("routes.json", .file (.readable routes)),
        ("pay.js", .file (.readable "/** Pay.\n * @table shop/order\n */")),
        ("docs/pages.json", .file (.readable
          (PageRecord.indexText [("db/order", ⟨"db/order.md", 2⟩)])))]
    let invocation : Invocation :=
      ⟨"apidoc.toml", none, false, false, .routes "routes.json"⟩
    let dryRun := { invocation with dryRun := true, strict := true }.runOn
      FileSystem.disk false files
    let realRun := { invocation with dryRun := false, strict := true }.runOn
      FileSystem.disk false files
    dryRun.2 = files ∧ dryRun.1.code = realRun.1.code ∧
      dryRun.1.stderr = realRun.1.stderr ∧ realRun.1.code = 1 := by
  intro routes files invocation dryRun realRun
  let config : Config :=
    { api := { sourceRoot := "." }, db := [("shop", { path := "db" })] }
  let store : DiskStore :=
    { root := "docs", index := [("db/order", ⟨"db/order.md", 2⟩)] }
  let opened := (DiskStore.load FileSystem.disk "docs" none files).2
  let units : Units := .routes [.bare "pay" "/pay" "POST"]
  have decoded : ((Invocation.registryOfText (Route.registry .text)
      "routes.json" routes).toOption.map (List.map Route.bare?)) =
        some ([("pay", "/pay", "POST")].map some) := by
    decide +kernel
  have named (files : FileSystem)
      (found : FileSystem.disk.source files "routes.json" = .ok routes) :
      Units.ofRegistry (FileSystem.disk.source files) invocation.registry =
        .ok units := by
    simp only [invocation, Units.ofRegistry, found, bind, Except.bind,
      Route.ok_bare decoded, units, List.map_cons, List.map_nil]
  have opens : DiskStore.load FileSystem.disk "docs" none files =
      (.ok store, opened) := by
    have loaded : (DiskStore.load FileSystem.disk "docs" none files).1 =
        .ok store := by
      decide +kernel
    exact (Prod.eta _).symm.trans
      (congrArg (fun result => (result, opened)) loaded)
  have agrees := dryRun_agrees FileSystem.disk false true invocation config units
    store files opened (by decide +kernel) opens (named _ (by decide +kernel))
    (named _ (by decide +kernel)) ⟨by decide +kernel, trivial⟩
    (by decide +kernel)
  have failed : realRun.1.code = 1 := by
    decide +kernel
  exact ⟨agrees.2.2.2.1, agrees.2.2.2.2.1, agrees.2.2.2.2.2.1, failed⟩

end TagDoc
