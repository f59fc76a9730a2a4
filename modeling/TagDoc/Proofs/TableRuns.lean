import TagDoc.Proofs.RouteAccounting
import TagDoc.Proofs.StoreRuns

/-!
# How documenting tables goes

The pages of tables do not depend on the store, so a pass over tables is a run
of saves that are known beforehand, and the answers to them decide the rest:
`runUnits_tables` for the tables of a database and `databasePass_eq` for a
database with its index page.  A logged workspace keeps exactly these saves.
-/

namespace TagDoc

variable {σ : Type}

/-- Save pages one after the other, whatever the answers. -/
def Workspace.saveEach (space : Workspace σ) :
    List PageDraft → σ → List SaveCall × σ
  | [], state => ([], state)
  | draft :: rest, state =>
      let (saved, middle) := space.save draft state
      let (calls, after) := space.saveEach rest middle
      (⟨draft, saved⟩ :: calls, after)

/-- The pages of tables, the first of which has the given display order. -/
def tableDrafts (settings : DbConfig) (database : String)
    (tables : Assoc TableSchema) (order : Nat) : List PageDraft :=
  (tables.zipIdx order).map fun (table, order) =>
    tableDraft settings database table order

/-- The index entry of a table whose page was handed over. -/
def tableEntry? (table : String × TableSchema) (call : SaveCall) :
    Option IndexEntry :=
  (valueOf? call.saved).map (tableEntry table.1 table.2)

/-- The findings about a table whose page was handed over. -/
def tableFindings (database : String) (table : String × TableSchema)
    (call : SaveCall) : List Finding :=
  (Page.ofTable (database ++ "." ++ table.1) table.2).findings ++
    (errorOf? call.saved).toList.map
      (.tableFailure (database ++ "." ++ table.1))

/-- What documenting tables gives when their pages were handed over. -/
def tableUnits (database : String) (tables : Assoc TableSchema)
    (calls : List SaveCall) (after : σ) : UnitRuns σ where
  entries := (List.zipWith tableEntry? tables calls).flatMap Option.toList
  failed := (calls.filterMap fun call => errorOf? call.saved).length
  findings := (List.zipWith (tableFindings database) tables calls).flatten
  state := after

/-- The index page of a database whose tables have the given entries. -/
def tableIndexDraft (settings : DbConfig) (entries : List IndexEntry) :
    PageDraft where
  directory := settings.path
  name := settings.indexName
  content := (Page.ofIndex "表名" settings.groups entries).value.markdown
  order := indexOrder

/-- The saves of a pass over the tables of a database. -/
def databaseCalls (space : Workspace σ) (settings : DbConfig)
    (database : String) (tables : Assoc TableSchema) (state : σ) :
    List SaveCall :=
  let saves := space.saveEach
    (tableDrafts settings database tables firstUnitOrder) state
  let index := tableIndexDraft settings
    (tableUnits database tables saves.1 saves.2).entries
  saves.1 ++ [⟨index, (space.save index saves.2).1⟩]

/-- The saves of a pass over a table registry. -/
def registryCalls (space : Workspace σ) (config : Config) :
    TableRegistry → σ → List SaveCall
  | [], _ => []
  | (database, tables) :: rest, state =>
      match Assoc.get? database config.db with
      | none => registryCalls space config rest state
      | some settings =>
          databaseCalls space settings database tables state ++
            registryCalls space config rest
              (databasePass space settings database tables state).state

section Runs

variable (space : Workspace σ)

theorem saveEach_logged (drafts : List PageDraft) (state : σ)
    (log : List SaveCall) :
    space.logged.saveEach drafts (state, log) =
      ((space.saveEach drafts state).1,
        ((space.saveEach drafts state).2,
          log ++ (space.saveEach drafts state).1)) := by
  induction drafts generalizing state log with
  | nil => simp [Workspace.saveEach]
  | cons draft rest ih =>
      simp only [Workspace.saveEach, save_logged, ih, List.append_assoc,
        List.singleton_append]

theorem runUnits_tables (settings : DbConfig) (database : String)
    (tables : Assoc TableSchema) (order : Nat) (state : σ) :
    runUnits (documentTable space settings database) tables order state =
      let saves := space.saveEach
        (tableDrafts settings database tables order) state
      tableUnits database tables saves.1 saves.2 := by
  induction tables generalizing order state with
  | nil => rfl
  | cons table rest ih =>
      have drafts : tableDrafts settings database (table :: rest) order =
          tableDraft settings database table order ::
            tableDrafts settings database rest (order + 1) := rfl
      simp only [runUnits, documentTable_eq, ih, drafts, Workspace.saveEach]
      cases answer : (space.save (tableDraft settings database table order)
          state).1 with
      | error failure =>
          simp [tableUnits, tableEntry?, tableFindings, Nat.add_comm]
      | ok url =>
          simp [tableUnits, tableEntry?, tableFindings, List.filterMap_cons]

theorem databasePass_eq (settings : DbConfig) (database : String)
    (tables : Assoc TableSchema) (state : σ) :
    let saves := space.saveEach
      (tableDrafts settings database tables firstUnitOrder) state
    let units := tableUnits database tables saves.1 saves.2
    let index := tableIndexDraft settings units.entries
    let saved := space.save index saves.2
    databasePass space settings database tables state =
      { report := ⟨index.content, units.entries, units.failed⟩
        findings := units.findings ++
          (Page.ofIndex "表名" settings.groups units.entries).findings ++
          (errorOf? saved.1).toList.map (.tableIndexFailure database)
        state := saved.2 } := by
  intro saves units index saved
  rw [databasePass, runUnits_tables, finishPass_eq]
  rfl

/-- A logged workspace keeps the saves of the pass and changes nothing else. -/
theorem databasePass_logged (settings : DbConfig) (database : String)
    (tables : Assoc TableSchema) (state : σ) (log : List SaveCall) :
    let run := databasePass space settings database tables state
    databasePass space.logged settings database tables (state, log) =
      { report := run.report
        findings := run.findings
        state := (run.state,
          log ++ databaseCalls space settings database tables state) } := by
  intro run
  simp only [run, databasePass_eq, saveEach_logged, save_logged, databaseCalls,
    tableUnits, List.append_assoc]

theorem registryPass_logged (config : Config) (registry : TableRegistry)
    (state : σ) (log : List SaveCall) :
    let run := registryPass space config registry state
    registryPass space.logged config registry (state, log) =
      { report := run.report
        findings := run.findings
        state := (run.state,
          log ++ registryCalls space config registry state) } := by
  intro run
  induction registry generalizing state log with
  | nil => simp [run, registryPass, registryCalls]
  | cons entry rest ih =>
      obtain ⟨database, tables⟩ := entry
      cases configured : Assoc.get? database config.db with
      | none => simp [run, registryPass, registryCalls, configured, ih]
      | some settings =>
          simp [run, registryPass, registryCalls, configured, ih,
            databasePass_logged]

end Runs

end TagDoc
