import TagDoc.Pass.Database
import TagDoc.Proofs.RouteRuns

/-!
# Runs over a store

Passes change the surroundings only by asking for the page index and by saving
pages, so what both keep is kept by every run of passes and saves.  A store
that lists what it saves therefore lists every reported table in all later
states.
-/

namespace TagDoc

variable {σ : Type} {space : Workspace σ}

/-- Neither asking for the page index nor saving a page breaks a property. -/
structure Workspace.Keeps (space : Workspace σ) (holds : σ → Prop) : Prop where
  pages : ∀ state, holds state → holds (space.pages state).2
  save : ∀ draft state, holds state → holds (space.save draft state).2

/-! ## Passes -/

/-- The page of a table as it goes to the store. -/
def tableDraft (settings : DbConfig) (database : String)
    (table : String × TableSchema) (order : Nat) : PageDraft where
  directory := settings.path
  name := table.1
  content := (Page.ofTable (database ++ "." ++ table.1) table.2).value.markdown
  order

theorem documentTable_eq (space : Workspace σ) (settings : DbConfig)
    (database : String) (table : String × TableSchema) (order : Nat)
    (state : σ) :
    let unit := database ++ "." ++ table.1
    let saved := space.save (tableDraft settings database table order) state
    documentTable space settings database table order state =
      { entry := (valueOf? saved.1).map (tableEntry table.1 table.2)
        findings := (Page.ofTable unit table.2).findings ++
          (errorOf? saved.1).toList.map (.tableFailure unit)
        state := saved.2 } := by
  intro unit saved
  cases answer : saved with
  | mk result after =>
      have handed : space.save (tableDraft settings database table order)
          state = (result, after) := answer
      rw [tableDraft] at handed
      cases result with
      | error failure => simp [documentTable, handed, unit]
      | ok url => simp [documentTable, handed, unit]

section Passes

variable {holds : σ → Prop} {state : σ}

theorem runUnits_keeps {α : Type} {run : α → Nat → σ → UnitRun σ}
    (each : ∀ unit order state, holds state →
      holds (run unit order state).state)
    (units : List α) (order : Nat) (before : holds state) :
    holds (runUnits run units order state).state := by
  induction units generalizing order state with
  | nil => exact before
  | cons unit rest ih => exact ih (order + 1) (each unit order state before)

theorem RouteRun.keeps {config : Config} {route : Route} {order : Nat}
    {after : σ} {outcome : RouteOutcome}
    (run : RouteRun space config route order state outcome after)
    (keeps : space.Keeps holds) (before : holds state) : holds after := by
  cases run with
  | unreadable read => exact before
  | uncommented read block => exact before
  | offline read block asked =>
      have kept := keeps.pages state before
      rw [asked] at kept
      exact kept
  | @rendered _ _ _ doc pages _ read block asked handed =>
      have kept := keeps.pages state before
      rw [asked] at kept
      have stored :=
        keeps.save (routeDraft config route order doc.value pages) _ kept
      rw [handed] at stored
      exact stored

theorem apiPass_keeps (keeps : space.Keeps holds) (config : Config)
    (routes : List Route) (before : holds state) :
    holds (apiPass space config routes state).state := by
  refine keeps.save _ _ (runUnits_keeps ?_ routes firstUnitOrder before)
  intro route order state before
  obtain ⟨outcome, after, run⟩ :=
    exists_routeRun space config route order state
  rw [run.documentRoute_eq]
  exact run.keeps keeps before

theorem documentTable_keeps (keeps : space.Keeps holds)
    (settings : DbConfig) (database : String)
    (table : String × TableSchema) (order : Nat) (before : holds state) :
    holds (documentTable space settings database table order state).state := by
  rw [documentTable_eq]
  exact keeps.save _ state before

theorem runTables_keeps (keeps : space.Keeps holds) (settings : DbConfig)
    (database : String) (tables : Assoc TableSchema) (order : Nat)
    (before : holds state) :
    holds (runUnits (documentTable space settings database) tables order
      state).state := by
  refine runUnits_keeps ?_ tables order before
  intro table order state
  exact documentTable_keeps keeps settings database table order

theorem databasePass_keeps (keeps : space.Keeps holds) (settings : DbConfig)
    (database : String) (tables : Assoc TableSchema) (before : holds state) :
    holds (databasePass space settings database tables state).state :=
  keeps.save _ _
    (runTables_keeps keeps settings database tables firstUnitOrder before)

theorem registryPass_keeps (keeps : space.Keeps holds) (config : Config)
    (registry : TableRegistry) (before : holds state) :
    holds (registryPass space config registry state).state := by
  induction registry generalizing state with
  | nil => exact before
  | cons entry rest ih =>
      obtain ⟨database, tables⟩ := entry
      rw [registryPass]
      split
      · exact ih before
      · exact ih (databasePass_keeps keeps _ database tables before)

end Passes

/-! ## Runs -/

/-- The states after any number of saves, passes and changes from outside. -/
inductive Later (space : Workspace σ) (changes : σ → σ → Prop) (start : σ) :
    σ → Prop where
  | refl : Later space changes start start
  | saved {state : σ} (draft : PageDraft) :
      Later space changes start state →
      Later space changes start (space.save draft state).2
  | routes {state : σ} (config : Config) (routes : List Route) :
      Later space changes start state →
      Later space changes start (apiPass space config routes state).state
  | tables {state : σ} (config : Config) (registry : TableRegistry) :
      Later space changes start state →
      Later space changes start (registryPass space config registry state).state
  | changed {state after : σ} :
      Later space changes start state → changes state after →
      Later space changes start after

theorem Later.keeps {changes : σ → σ → Prop} {holds : σ → Prop}
    {start state : σ} (later : Later space changes start state)
    (keeps : space.Keeps holds)
    (outside : ∀ before after, changes before after → holds before →
      holds after)
    (before : holds start) : holds state := by
  induction later with
  | refl => exact before
  | saved draft _ ih => exact keeps.save draft _ ih
  | routes config routes _ ih => exact apiPass_keeps keeps config routes ih
  | tables config registry _ ih =>
      exact registryPass_keeps keeps config registry ih
  | changed _ change ih => exact outside _ _ change ih

/-! ## Stores that list what they save -/

/-- A sound store gives every page the URL of its key, and lists the key with
that URL from the page's saving on. -/
structure Workspace.Publishes (space : Workspace σ) (urlOf : String → String)
    (sound : σ → Prop) (listed : String → σ → Prop) : Prop where
  keepsSound : space.Keeps sound
  keepsListed : ∀ key, space.Keeps fun state => sound state ∧ listed key state
  saved : ∀ draft state after url, sound state →
    space.save draft state = (.ok url, after) →
      url = urlOf draft.key ∧ listed draft.key after
  answers : ∀ key state pages after, sound state → listed key state →
    space.pages state = (.ok pages, after) →
      Assoc.get? key pages = some (urlOf key)

section Publishes

variable {urlOf : String → String} {sound : σ → Prop}
  {listed : String → σ → Prop}
  (publishes : space.Publishes urlOf sound listed)

include publishes

theorem documentTable_listed {settings : DbConfig} {database : String}
    {table : String × TableSchema} {order : Nat} {state : σ}
    {entry : IndexEntry} (before : sound state)
    (made : (documentTable space settings database table order state).entry =
      some entry) :
    entry.url = urlOf (pageKey settings.path entry.name) ∧
      listed (pageKey settings.path entry.name)
        (documentTable space settings database table order state).state := by
  rw [documentTable_eq] at made ⊢
  obtain ⟨url, answered, rfl⟩ := Option.map_eq_some_iff.mp made
  cases answer : space.save (tableDraft settings database table order) state with
  | mk result after =>
      rw [answer] at answered
      cases result with
      | error failure => cases answered
      | ok own =>
          have same : own = url := Option.some.inj answered
          subst same
          have stored := publishes.saved (tableDraft settings database table order)
            state after own before answer
          exact stored

theorem runUnits_listed {settings : DbConfig} {database : String}
    {tables : Assoc TableSchema} {order : Nat} {state : σ}
    {entry : IndexEntry} (before : sound state)
    (member : entry ∈ (runUnits (documentTable space settings database) tables
      order state).entries) :
    entry.url = urlOf (pageKey settings.path entry.name) ∧
      listed (pageKey settings.path entry.name)
        (runUnits (documentTable space settings database) tables order
          state).state := by
  induction tables generalizing order state with
  | nil => cases member
  | cons table rest ih =>
      have middle := documentTable_keeps publishes.keepsSound settings database
        table order before
      rcases List.mem_append.mp member with here | later
      · obtain ⟨url, listed⟩ := documentTable_listed publishes before
          (Option.mem_toList.mp here)
        refine ⟨url, ?_⟩
        have keeps := publishes.keepsListed (pageKey settings.path entry.name)
        exact (runTables_keeps keeps settings database rest (order + 1)
          ⟨middle, listed⟩).2
      · exact ih middle later

theorem databasePass_listed {settings : DbConfig} {database : String}
    {tables : Assoc TableSchema} {state : σ} {entry : IndexEntry}
    (before : sound state)
    (member : entry ∈
      (databasePass space settings database tables state).report.entries) :
    entry.url = urlOf (pageKey settings.path entry.name) ∧
      listed (pageKey settings.path entry.name)
        (databasePass space settings database tables state).state := by
  obtain ⟨url, listed⟩ := runUnits_listed publishes before member
  have middle := runTables_keeps publishes.keepsSound settings database tables
    firstUnitOrder before
  exact ⟨url,
    ((publishes.keepsListed _).save _ _ ⟨middle, listed⟩).2⟩

/-- The tables that a pass reports are listed with the reported URLs after
it. -/
theorem registryPass_listed {config : Config} {registry : TableRegistry}
    {state : σ} {database : String} {report : BuildReport}
    {entry : IndexEntry} (before : sound state)
    (reported : (database, report) ∈
      (registryPass space config registry state).report)
    (member : entry ∈ report.entries) :
    ∃ settings, Assoc.get? database config.db = some settings ∧
      entry.url = urlOf (pageKey settings.path entry.name) ∧
      listed (pageKey settings.path entry.name)
        (registryPass space config registry state).state := by
  induction registry generalizing state with
  | nil => cases reported
  | cons first rest ih =>
      obtain ⟨name, tables⟩ := first
      rw [registryPass] at reported ⊢
      cases configured : Assoc.get? name config.db with
      | none =>
          rw [configured] at reported
          exact ih before reported
      | some settings =>
          rw [configured] at reported
          have middle := databasePass_keeps publishes.keepsSound settings name
            tables before
          rcases List.mem_cons.mp reported with here | later
          · cases here
            obtain ⟨url, listed⟩ := databasePass_listed publishes before member
            refine ⟨settings, configured, url, ?_⟩
            have keeps := publishes.keepsListed
              (pageKey settings.path entry.name)
            exact (registryPass_keeps keeps config rest ⟨middle, listed⟩).2
          · exact ih middle later

end Publishes

end TagDoc
