import TagDoc.FileSystem
import TagDoc.Proofs.CalmRuns
import TagDoc.Proofs.IndexFindings
import TagDoc.Proofs.PageIndexFile
import TagDoc.Store.Memory

/-!
# The account of a pass over tables

A pass over tables leaves one trace for every configured database: the saves of
its tables and of its index page, with the answers, and its report.  Whatever a
workspace refuses, the report and the errors of the pass are read off these
traces: `registryPass_traces`.
-/

namespace TagDoc

variable {σ : Type}

/-- The comment of a table is absent, or empty, or says that there is none. -/
def TableSchema.Uncommented (table : TableSchema) : Prop :=
  table.comment = none ∨ table.comment = some "" ∨
    table.comment = some noTableComment

instance : DecidablePred TableSchema.Uncommented := fun table =>
  inferInstanceAs (Decidable (table.comment = none ∨ _))

theorem TableSchema.documentedComment_eq (table : TableSchema) :
    table.documentedComment =
      if table.Uncommented then none else table.comment := by
  cases given : table.comment with
  | none => simp [documentedComment, Uncommented, given]
  | some comment =>
      by_cases empty : comment = ""
      · simp [documentedComment, Uncommented, given, empty]
      · by_cases placeholder : comment = noTableComment
        · simp [documentedComment, Uncommented, given, placeholder]
        · simp [documentedComment, Uncommented, given, empty, placeholder,
            Option.filter]

/-- One error for each description that several entries share, in the order of
the first entry with it; the error names these entries. -/
def IndexPage.sharedDescriptions (entries : List IndexEntry) : List Finding :=
  ((descriptions entries).filter fun description =>
      1 < (described description entries).length).map fun description =>
    .sharedDescription description
      ((described description entries).map IndexEntry.name)

/-- What a pass did for one database. -/
structure DatabaseTrace where
  database : String
  settings : DbConfig
  tables : Assoc TableSchema
  /-- The saves of the table pages, with their answers. -/
  saves : List SaveCall
  /-- The save of the index page, with its answer. -/
  index : SaveCall
  report : BuildReport

/-- A table and the save of its page. -/
abbrev SavedTable := (String × TableSchema) × SaveCall

namespace SavedTable

/-- The index entry of a table whose page was saved. -/
def listed? (saved : SavedTable) : Option IndexEntry :=
  let ((name, table), call) := saved
  (valueOf? call.saved).map fun url =>
    { name
      group := table.group.getD defaultGroup
      description :=
        if table.Uncommented then "" else table.comment.getD ""
      url }

/-- The errors about a table of a database: a missing comment, then the columns
without comment, then a refused page. -/
def errors (database : String) (saved : SavedTable) : List Finding :=
  let ((name, table), call) := saved
  let unit := database ++ "." ++ name
  (if table.Uncommented then [.uncommentedTable unit] else []) ++
    ((table.columns.filter fun (_, column) =>
        column.comment = none ∨ column.comment = some "").map
      fun (column, _) => .uncommentedColumn unit column) ++
    (errorOf? call.saved).toList.map (.tableFailure unit)

end SavedTable

namespace DatabaseTrace

def savedTables (trace : DatabaseTrace) : List SavedTable :=
  trace.tables.zip trace.saves

/-- All saves of the pass over the database, in order. -/
def calls (trace : DatabaseTrace) : List SaveCall :=
  trace.saves ++ [trace.index]

/-- Each table page is saved once, in order, with the display orders from 2 on,
and the index page is saved once after them; the tables whose pages were saved
are listed, and the others counted. -/
structure Faithful (trace : DatabaseTrace) : Prop where
  drafts : trace.saves.map SaveCall.draft =
    (trace.tables.zipIdx 2).map fun (table, order) =>
      tableDraft trace.settings trace.database table order
  entries : trace.report.entries =
    trace.savedTables.filterMap SavedTable.listed?
  failed : trace.report.entries.length + trace.report.failed =
    trace.tables.length
  index : trace.index.draft =
    ⟨trace.settings.path, trace.settings.indexName, trace.report.index, 1⟩

/-- The errors about a database: those of its tables, one for each description
that several entries share, and one for a refused index page. -/
def errors (trace : DatabaseTrace) : List Finding :=
  trace.savedTables.flatMap (SavedTable.errors trace.database) ++
    IndexPage.sharedDescriptions trace.report.entries ++
    (errorOf? trace.index.saved).toList.map (.tableIndexFailure trace.database)

end DatabaseTrace

/-! ## Levels of findings -/

theorem TablePage.level_findings {unit : String} {table : TableSchema}
    {finding : Finding} (member : finding ∈ (Page.ofTable unit table).findings) :
    finding.level = .error := by
  simp only [Page.ofTable, commentFindings, columnFindings, List.mem_append,
    List.mem_flatMap] at member
  rcases member with own | ⟨⟨name, column⟩, _, about⟩
  · split at own
    · rw [List.mem_singleton.mp own]
      rfl
    · cases own
  · split at about
    · rw [List.mem_singleton.mp about]
      rfl
    · cases about

theorem tableFindings_eq (database : String) (table : String × TableSchema)
    (call : SaveCall) :
    tableFindings database table call =
      SavedTable.errors database (table, call) := by
  obtain ⟨name, schema⟩ := table
  have comment (unit : String) : TablePage.commentFindings unit schema =
      if schema.Uncommented then [.uncommentedTable unit] else [] := by
    rw [TablePage.commentFindings, schema.documentedComment_eq]
    by_cases bare : schema.Uncommented
    · simp [bare]
    · have given : schema.comment ≠ none := fun none => bare (.inl none)
      simp [bare, given]
  have columns (unit : String) (columns : Assoc Column) :
      (columns.flatMap fun (name, column) =>
          TablePage.columnFindings unit name column) =
        (columns.filter fun (_, column) =>
            column.comment = none ∨ column.comment = some "").map
          fun (column, _) => .uncommentedColumn unit column := by
    induction columns with
    | nil => rfl
    | cons entry rest ih =>
        obtain ⟨name, column⟩ := entry
        rw [List.flatMap_cons, ih]
        cases given : column.comment with
        | none => simp [TablePage.columnFindings, Column.commentText, given]
        | some text =>
            by_cases empty : text = ""
            · simp [TablePage.columnFindings, Column.commentText, given, empty]
            · simp [TablePage.columnFindings, Column.commentText, given, empty]
  simp only [tableFindings, SavedTable.errors, Page.ofTable, comment, columns]

theorem SavedTable.level_errors {database : String} {saved : SavedTable}
    {finding : Finding} (member : finding ∈ errors database saved) :
    finding.level = .error := by
  rw [← tableFindings_eq database saved.1 saved.2] at member
  rcases List.mem_append.mp member with page | refused
  · exact TablePage.level_findings page
  · obtain ⟨failure, _, rfl⟩ := List.mem_map.mp refused
    rfl

theorem level_ofIndex {nameHeader : String} {groups : List String}
    {entries : List IndexEntry} {finding : Finding}
    (member : finding ∈ (Page.ofIndex nameHeader groups entries).findings) :
    finding.level ≠ .info := by
  rcases mem_findings_ofIndex member with ⟨_, _, rfl⟩ | ⟨_, _, rfl⟩
  · exact Level.noConfusion
  · exact Level.noConfusion

/-- Where entries have different names, the errors about an index page are the
descriptions that several entries share. -/
theorem filter_error_ofIndex (nameHeader : String) (groups : List String)
    {entries : List IndexEntry}
    (distinct : (entries.map IndexEntry.name).Nodup) :
    (Page.ofIndex nameHeader groups entries).findings.filter
        (fun finding => finding.level = .error) =
      IndexPage.sharedDescriptions entries := by
  have names (description : String) :
      IndexPage.namesSharing description entries =
        (IndexPage.described description entries).map IndexEntry.name :=
    eraseDups_of_nodup (distinct.sublist (List.filter_sublist.map _))
  have shared : IndexPage.sharedTexts entries =
      (IndexPage.descriptions entries).filter fun description =>
        1 < (IndexPage.described description entries).length := by
    apply List.filter_congr
    intro description member
    have several := IndexPage.sharedByNames_iff_of_mem member
    rw [names, List.length_map] at several
    exact decide_eq_decide.mpr several
  calc (Page.ofIndex nameHeader groups entries).findings.filter
        (fun finding => finding.level = .error)
      = IndexPage.sharingFindings entries :=
        IndexPage.filter_level_findings groups entries .error
    _ = IndexPage.sharedDescriptions entries := by
        simp only [IndexPage.sharingFindings, shared, names,
          IndexPage.sharedDescriptions]

/-! ## One database -/

theorem map_draft_saveEach (space : Workspace σ) (drafts : List PageDraft)
    (state : σ) :
    (space.saveEach drafts state).1.map SaveCall.draft = drafts := by
  induction drafts generalizing state with
  | nil => rfl
  | cons draft rest ih =>
      rw [Workspace.saveEach, List.map_cons, ih]

theorem entries_tableUnits (database : String) (tables : Assoc TableSchema)
    (calls : List SaveCall) (after : σ) :
    (tableUnits database tables calls after).entries =
      (tables.zip calls).filterMap SavedTable.listed? := by
  have entry (table : String × TableSchema) (call : SaveCall) :
      tableEntry? table call = SavedTable.listed? (table, call) := by
    rw [ tableEntry?, SavedTable.listed?]
    congr 1
    funext url
    rw [tableEntry, table.2.documentedComment_eq, apply_ite (Option.getD · ""),
      Option.getD_none]
  induction tables generalizing calls with
  | nil => rfl
  | cons table rest ih =>
      cases calls with
      | nil => rfl
      | cons call others =>
          rw [List.zip_cons_cons, List.filterMap_cons, ← ih others, ← entry,
            tableUnits, List.zipWith_cons_cons, List.flatMap_cons]
          cases tableEntry? table call with
          | none => rfl
          | some made => rfl

theorem findings_tableUnits (database : String) (tables : Assoc TableSchema)
    (calls : List SaveCall) (after : σ) :
    (tableUnits database tables calls after).findings =
      (tables.zip calls).flatMap (SavedTable.errors database) := by
  have each : Function.uncurry (tableFindings database) =
      SavedTable.errors database :=
    funext fun saved => tableFindings_eq database saved.1 saved.2
  rw [List.flatMap_def, ← each, List.map_uncurry_zip_eq_zipWith]
  rfl

theorem length_tableUnits (database : String) {tables : Assoc TableSchema}
    {calls : List SaveCall} (each : calls.length = tables.length)
    (after : σ) :
    let units := tableUnits database tables calls after
    units.entries.length + units.failed = tables.length := by
  induction tables generalizing calls with
  | nil =>
      obtain rfl := List.length_eq_zero_iff.mp each
      rfl
  | cons table rest ih =>
      cases calls with
      | nil => cases each
      | cons call others =>
          have later := ih (Nat.succ.inj each)
          cases answer : call.saved with
          | error failure =>
              simp [tableUnits, tableEntry?, answer] at later ⊢
              omega
          | ok url =>
              simp [tableUnits, tableEntry?, answer] at later ⊢
              omega

theorem names_sublist (tables : Assoc TableSchema) (calls : List SaveCall) :
    (((tables.zip calls).filterMap SavedTable.listed?).map
      IndexEntry.name).Sublist (Assoc.keys tables) := by
  induction tables generalizing calls with
  | nil => exact List.Sublist.refl _
  | cons table rest ih =>
      cases calls with
      | nil => exact List.nil_sublist _
      | cons call others =>
          rw [List.zip_cons_cons, List.filterMap_cons]
          cases answer : call.saved with
          | error failure =>
              simp only [SavedTable.listed?, answer, valueOf?_error,
                Option.map_none]
              exact (ih others).cons _
          | ok url =>
              simp only [SavedTable.listed?, answer, valueOf?_ok,
                Option.map_some, List.map_cons]
              exact (ih others).cons_cons _

section Database

variable (space : Workspace σ) (settings : DbConfig) (database : String)
  (tables : Assoc TableSchema) (state : σ)

/-- The trace of the pass over a database. -/
def databaseTrace : DatabaseTrace :=
  let saves := space.saveEach
    (tableDrafts settings database tables firstUnitOrder) state
  let units := tableUnits database tables saves.1 saves.2
  let index := tableIndexDraft settings units.entries
  { database, settings, tables
    saves := saves.1
    index := ⟨index, (space.save index saves.2).1⟩
    report := ⟨index.content, units.entries, units.failed⟩ }

theorem faithful_databaseTrace :
    (databaseTrace space settings database tables state).Faithful where
  drafts := map_draft_saveEach space _ state
  entries := entries_tableUnits database tables _ state
  failed := by
    have drafts := congrArg List.length (map_draft_saveEach space
      (tableDrafts settings database tables firstUnitOrder) state)
    have each : (space.saveEach
        (tableDrafts settings database tables firstUnitOrder)
          state).1.length = tables.length := by
      simpa [tableDrafts] using drafts
    exact length_tableUnits database each state
  index := rfl

theorem report_databaseTrace :
    (databasePass space settings database tables state).report =
      (databaseTrace space settings database tables state).report := by
  rw [databasePass_eq]
  rfl

theorem errors_databaseTrace (distinct : (Assoc.keys tables).Nodup) :
    (databasePass space settings database tables state).findings.filter
        (fun finding => finding.level = .error) =
      (databaseTrace space settings database tables state).errors := by
  have units (saved : List SavedTable) :
      (saved.flatMap (SavedTable.errors database)).filter
          (fun finding => finding.level = .error) =
        saved.flatMap (SavedTable.errors database) := by
    refine List.filter_eq_self.mpr fun finding member => ?_
    obtain ⟨_, _, own⟩ := List.mem_flatMap.mp member
    exact decide_eq_true (SavedTable.level_errors own)
  have index (answer : Except Failure String) :
      ((errorOf? answer).toList.map
          (Finding.tableIndexFailure database)).filter
        (fun finding => finding.level = .error) =
      (errorOf? answer).toList.map (.tableIndexFailure database) := by
    cases answer with
    | error failure => rfl
    | ok url => rfl
  have names := distinct.sublist (names_sublist tables
    (space.saveEach (tableDrafts settings database tables firstUnitOrder)
      state).1)
  rw [databasePass_eq]
  simp only [List.filter_append, findings_tableUnits, units, index,
    entries_tableUnits, filter_error_ofIndex _ _ names]
  simp only [databaseTrace, DatabaseTrace.errors, DatabaseTrace.savedTables,
    entries_tableUnits]

theorem filter_info_databasePass :
    (databasePass space settings database tables state).findings.filter
        (fun finding => finding.level = .info) = [] := by
  refine List.filter_eq_nil_iff.mpr fun finding member => ?_
  rw [databasePass_eq] at member
  simp only [findings_tableUnits, List.mem_append, List.mem_flatMap,
    List.mem_map] at member
  rcases member with (⟨_, _, own⟩ | shared) | ⟨_, _, rfl⟩
  · simp [SavedTable.level_errors own]
  · simp [level_ofIndex shared]
  · simp [Finding.level]

end Database

/-! ## A registry -/

/-- The traces of a pass, one for each configured database. -/
def registryTraces (space : Workspace σ) (config : Config) :
    TableRegistry → σ → List DatabaseTrace
  | [], _ => []
  | (database, tables) :: rest, state =>
      match Assoc.get? database config.db with
      | none => registryTraces space config rest state
      | some settings =>
          databaseTrace space settings database tables state ::
            registryTraces space config rest
              (databasePass space settings database tables state).state

/-- The databases of a registry that the configuration leaves out. -/
def unconfiguredDatabases (config : Config) (registry : TableRegistry) :
    List String :=
  (Assoc.keys registry).filter fun database =>
    (Assoc.get? database config.db).isNone

section Registry

variable (space : Workspace σ) (config : Config) (registry : TableRegistry)
  (state : σ)

theorem faithful_registryTraces :
    ∀ trace ∈ registryTraces space config registry state, trace.Faithful := by
  induction registry generalizing state with
  | nil => exact fun _ member => nomatch member
  | cons entry rest ih =>
      obtain ⟨database, tables⟩ := entry
      rw [registryTraces]
      cases Assoc.get? database config.db with
      | none => exact ih state
      | some settings =>
          rintro trace (_ | ⟨_, later⟩)
          · exact faithful_databaseTrace space settings database tables state
          · exact ih _ trace later

/-- The traces are those of the configured databases, and they tell the reports
and the saves of the pass. -/
theorem registryTraces_eq :
    let traces := registryTraces space config registry state
    (traces.map fun trace => (trace.database, trace.settings, trace.tables)) =
        configuredTables config registry ∧
      (registryPass space config registry state).report =
        (traces.map fun trace => (trace.database, trace.report)) ∧
      registryCalls space config registry state =
        traces.flatMap DatabaseTrace.calls := by
  intro traces
  induction registry generalizing state with
  | nil => exact ⟨rfl, rfl, rfl⟩
  | cons entry rest ih =>
      obtain ⟨database, tables⟩ := entry
      simp only [traces, registryTraces, registryPass, registryCalls]
      cases configured : Assoc.get? database config.db with
      | none =>
          obtain ⟨databases, reports, calls⟩ := ih state
          refine ⟨?_, reports, calls⟩
          simp [configuredTables, configured, databases]
      | some settings =>
          obtain ⟨databases, reports, calls⟩ := ih
            (databasePass space settings database tables state).state
          refine ⟨?_, ?_, ?_⟩
          · simp [configuredTables, configured, databases, databaseTrace]
          · simp [reports, report_databaseTrace, databaseTrace]
          · rw [List.flatMap_cons, ← calls]
            rfl

/-- The errors of a pass are those of its traces, one database after the
other, and each unconfigured database gives one information message. -/
theorem filter_registryPass
    (distinct : ∀ entry ∈ registry, (Assoc.keys entry.2).Nodup) :
    let findings := (registryPass space config registry state).findings
    findings.filter (fun finding => finding.level = .error) =
        (registryTraces space config registry state).flatMap
          DatabaseTrace.errors ∧
      findings.filter (fun finding => finding.level = .info) =
        (unconfiguredDatabases config registry).map
          .unconfiguredDatabase := by
  intro findings
  induction registry generalizing state with
  | nil => exact ⟨rfl, rfl⟩
  | cons entry rest ih =>
      obtain ⟨database, tables⟩ := entry
      have own := distinct _ List.mem_cons_self
      have later state := ih state fun entry member =>
        distinct entry (List.mem_cons_of_mem _ member)
      simp only [findings, registryTraces, registryPass]
      cases configured : Assoc.get? database config.db with
      | none =>
          obtain ⟨errors, infos⟩ := later state
          refine ⟨?_, ?_⟩
          · simpa [Finding.level] using errors
          · simpa [Finding.level, unconfiguredDatabases, Assoc.keys,
              configured] using infos
      | some settings =>
          obtain ⟨errors, infos⟩ := later
            (databasePass space settings database tables state).state
          refine ⟨?_, ?_⟩
          · rw [List.filter_append, errors, errors_databaseTrace _ _ _ _ _ own,
              List.flatMap_cons]
          · rw [List.filter_append, infos, filter_info_databasePass,
              List.nil_append]
            simp [unconfiguredDatabases, Assoc.keys, configured]

end Registry

section Decoding

open Json Json.Decoder

variable {α : Type} {decoder : Json.Decoder α}

theorem decoded_of_mem_members {entries result : Assoc α}
    {parts : List (Option String × Draft)}
    (known : ∀ entry ∈ entries, ∃ part, decoder part = .ok entry.2)
    (decoded : members decoder entries parts = .ok result) :
    ∀ entry ∈ result, ∃ part, decoder part = .ok entry.2 := by
  induction parts generalizing entries with
  | nil =>
      cases decoded
      exact known
  | cons part rest ih =>
      obtain ⟨name, part⟩ := part
      cases name with
      | none => cases decoded
      | some name =>
          obtain ⟨value, own, others⟩ := bind_eq_ok.mp decoded
          refine ih (fun entry member => ?_) others
          rcases Assoc.mem_put member with rfl | old
          · exact ⟨part, own⟩
          · exact known entry old

theorem decoded_of_mem_assoc {draft : Draft} {result : Assoc α}
    {entry : String × α} (decoded : assoc decoder draft = .ok result)
    (member : entry ∈ result) : ∃ part, decoder part = .ok entry.2 := by
  unfold assoc at decoded
  split at decoded
  · obtain ⟨_, _, opened⟩ := bind_eq_ok.mp decoded
    obtain ⟨values, parts, ended⟩ := bind_eq_ok.mp opened
    obtain ⟨_, _, same⟩ := bind_eq_ok.mp ended
    cases same
    exact decoded_of_mem_members (by simp) parts entry member
  · exact (refuse_ne_ok draft result decoded).elim

/-- The tables of a database in a decoded registry have different names. -/
theorem TableSchema.nodup_registry {dialect : Dialect} {draft : Draft}
    {registry : TableRegistry}
    (decoded : TableSchema.registry dialect draft = .ok registry) :
    ∀ entry ∈ registry, (Assoc.keys entry.2).Nodup := by
  intro entry member
  obtain ⟨part, tables⟩ := decoded_of_mem_assoc decoded member
  exact nodup_assoc tables

end Decoding

/-- The account of a pass over tables, whatever the workspace refuses.  Each
configured database has a trace, in the order of the registry.  The report and
the saves of the pass are those of the traces; the collector has their errors
and one information message for each unconfigured database.  Decoded registries
are of the required form: `TableSchema.nodup_registry`. -/
theorem registryPass_traces (space : Workspace σ) (config : Config)
    (registry : TableRegistry) (state : σ) (held : Diagnostics)
    (distinct : ∀ entry ∈ registry, (Assoc.keys entry.2).Nodup) :
    ∃ traces : List DatabaseTrace,
      let run := registryPass space config registry state
      let logged := registryPass space.logged config registry (state, [])
      let collected := run.collect held
      (∀ trace ∈ traces, trace.Faithful) ∧
      (traces.map fun trace =>
          (trace.database, trace.settings, trace.tables)) =
        configuredTables config registry ∧
      run.report = (traces.map fun trace => (trace.database, trace.report)) ∧
      logged.report = run.report ∧ logged.findings = run.findings ∧
      logged.state = (run.state, traces.flatMap DatabaseTrace.calls) ∧
      collected.errors =
        (traces.flatMap DatabaseTrace.errors).map Finding.message ∧
      collected.infos =
        (unconfiguredDatabases config registry).map fun database =>
          (Finding.unconfiguredDatabase database).message := by
  obtain ⟨databases, report, calls⟩ :=
    registryTraces_eq space config registry state
  obtain ⟨errors, infos⟩ :=
    filter_registryPass space config registry state distinct
  refine ⟨registryTraces space config registry state, ?_⟩
  intro run logged collected
  have logs : logged = _ := registryPass_logged space config registry state []
  have reported : collected.errors = _ := run.messages_collect held .error
  have told : collected.infos = _ := run.messages_collect held .info
  rw [errors] at reported
  rw [infos, List.map_map] at told
  refine ⟨faithful_registryTraces space config registry state, databases,
    report, by rw [logs], by rw [logs], ?_, reported, told⟩
  rw [logs, calls, List.nil_append]

/-- A refused table page is reported beside the missing comment, is not listed,
and leaves the other tables and the index page as they are. -/
theorem registryPass_traces_refused :
    let config : Config := { db := [("shop", { path := "shop" })] }
    let commented (text : String) : Json := .object [("comment", .string text)]
    let tables : Json := .object
      [("old", .object []),
        ("shop", .object
          [("orders", commented "Sales."),
            ("carts", commented noTableComment),
            ("bills", commented "Sales.")])]
    let registry : TableRegistry :=
      [("old", []),
        ("shop",
          [("orders", { comment := some "Sales." }),
            ("carts", { comment := some noTableComment }),
            ("bills", { comment := some "Sales." })])]
    let space := (MemoryStore.workspace FileSystem.disk).withOutage
      { refusedKeys := ["shop/carts", "shop/索引"] }
    let state : MemoryStore × FileSystem := ({}, FileSystem.ofEntries [])
    let run := registryPass space config registry state
    TableSchema.registry .value tables.draft = .ok registry ∧
      (run.collect {}).errors =
        [ "* table [shop.carts] has no comment",
          "* failed to save table shop.carts: save refused: shop/carts: disk full",
          "* duplicate description \"Sales.\": orders, bills",
          "* failed to save index for shop: save refused: shop/索引: disk full" ] ∧
      (run.collect {}).infos =
        ["* database old is not configured, skipped"] ∧
      ∃ traces : List DatabaseTrace,
        (∀ trace ∈ traces, trace.Faithful) ∧
        run.report = (traces.map fun trace => (trace.database, trace.report)) ∧
        (run.collect {}).errors =
          (traces.flatMap DatabaseTrace.errors).map Finding.message := by
  intro config commented tables registry space state run
  have decoded : TableSchema.registry .value tables.draft = .ok registry := by
    rfl
  refine ⟨decoded, by decide +kernel, by decide +kernel, ?_⟩
  obtain ⟨traces, faithful, _, report, _, _, _, errors, _⟩ :=
    registryPass_traces space config registry state {}
      (TableSchema.nodup_registry decoded)
  exact ⟨traces, faithful, report, errors⟩

end TagDoc
