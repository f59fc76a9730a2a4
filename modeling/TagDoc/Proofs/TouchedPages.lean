import TagDoc.Proofs.Isolation
import TagDoc.Proofs.OwnPages

/-!
# Which pages a pass touches

What a pass saves into a memory store follows from its units, the handler
sources and the store it starts from: a page for each documented unit in the
order of the registry, and that of an index after its units.  The store then
has the last page of each of these keys and, under all other keys, what it had
before: `pass_touches`.
-/

namespace TagDoc

variable {δ : Type}

/-! ## The pages of a pass -/

section Pages

variable (config : Config) (sources : String → Except Failure String)

/-- The documentation of a route, if its source can be read and has any. -/
def documentation? (route : Route) : Option (Diagnosed DocComment) :=
  (valueOf? (sources (handlerUnit config route))).bind
    (DocComment.ofSource? (handlerUnit config route))

/-- The pages of routes, the first of which has the given display order.  Each
is made against the index that the pages before it leave.  A route without
documentation has a display order, but no page. -/
def routePages : List Route → Nat → MemoryStore → List PageDraft
  | [], _, _ => []
  | route :: rest, order, store =>
      match documentation? config sources route with
      | none => routePages rest (order + 1) store
      | some doc =>
          let draft := routeDraft config route order doc.value store.index
          draft :: routePages rest (order + 1) (store.save draft).2

/-- The entries of the documented routes. -/
def documentedEntries (baseUrl : Option String) (routes : List Route) :
    List IndexEntry :=
  routes.filterMap fun route =>
    (documentation? config sources route).map fun doc =>
      routeEntry route doc.value
        (pageUrl baseUrl (pageKey config.api.docPath route.path))

/-- The pages of a pass in the order of their saving. -/
def Units.pages (store : MemoryStore) : Units → List PageDraft
  | .routes listed =>
      routePages config sources listed firstUnitOrder store ++
        [routeIndexDraft config
          (documentedEntries config sources store.baseUrl listed)]
  | .tables registry => registryDrafts store.baseUrl config registry

/-- The keys of the documented units and of the indexes. -/
def Units.touchedKeys : Units → List String
  | .routes listed =>
      (listed.filter fun route =>
          (documentation? config sources route).isSome).map
        (fun route => pageKey config.api.docPath route.path) ++
        [pageKey config.api.indexPath config.api.indexName]
  | .tables registry =>
      (configuredTables config registry).flatMap fun (_, settings, listed) =>
        (Assoc.keys listed).map (pageKey settings.path) ++
          [pageKey settings.path settings.indexName]

end Pages

section Documented

variable {config : Config} {sources : String → Except Failure String}

theorem documentation?_of_error {route : Route} {failure : Failure}
    (read : sources (handlerUnit config route) = .error failure) :
    documentation? config sources route = none := by
  rw [documentation?, read, valueOf?_error, Option.bind_none]

theorem documentation?_of_ok {route : Route} {text : String}
    (read : sources (handlerUnit config route) = .ok text) :
    documentation? config sources route =
      DocComment.ofSource? (handlerUnit config route) text := by
  rw [documentation?, read, valueOf?_ok, Option.bind_some]

/-! ## Keys -/

theorem keys_routePages (routes : List Route) (order : Nat)
    (store : MemoryStore) :
    (routePages config sources routes order store).map PageDraft.key =
      (routes.filter fun route =>
          (documentation? config sources route).isSome).map
        fun route => pageKey config.api.docPath route.path := by
  induction routes generalizing order store with
  | nil => rfl
  | cons route rest ih =>
      rw [routePages]
      cases found : documentation? config sources route with
      | none => simp [found, ih]
      | some doc => simp [found, ih, key_routeDraft]

theorem keys_tableDrafts (settings : DbConfig) (database : String)
    (tables : Assoc TableSchema) (order : Nat) :
    (tableDrafts settings database tables order).map PageDraft.key =
      (Assoc.keys tables).map (pageKey settings.path) := by
  induction tables generalizing order with
  | nil => rfl
  | cons table rest ih =>
      have drafts : tableDrafts settings database (table :: rest) order =
          tableDraft settings database table order ::
            tableDrafts settings database rest (order + 1) := rfl
      rw [drafts, List.map_cons, ih]
      rfl

theorem Units.keys_pages (units : Units) (store : MemoryStore) :
    (units.pages config sources store).map PageDraft.key =
      units.touchedKeys config sources := by
  cases units with
  | routes listed =>
      rw [pages, List.map_append, keys_routePages]
      rfl
  | tables registry =>
      rw [pages, touchedKeys, registryDrafts, List.map_flatMap]
      apply List.flatMap_congr
      intro entry _
      obtain ⟨database, settings, listed⟩ := entry
      simp only [databaseDrafts, List.map_append, keys_tableDrafts]
      rfl

end Documented

/-! ## The saves of a pass -/

namespace MemoryStore

theorem drafts_of_routeRuns {disk : Disk δ} {config : Config}
    {routes : List Route} {order : Nat} {state after : MemoryStore × δ}
    {outcomes : List RouteOutcome}
    (runs : RouteRuns (workspace disk) config routes order state outcomes
      after) :
    (routeSaves config routes order outcomes).map SaveCall.draft =
        routePages config (disk.source state.2) routes order state.1 ∧
      routeEntries config routes outcomes =
        documentedEntries config (disk.source state.2) state.1.baseUrl
          routes := by
  induction runs with
  | nil => exact ⟨rfl, rfl⟩
  | @cons route rest order state middle after outcome outcomes first _ ih =>
      obtain ⟨drafts, entries⟩ := ih
      rw [routeSaves_cons, List.map_append, drafts, routeEntries_cons, entries,
        routePages, documentedEntries, documentedEntries, List.filterMap_cons]
      have reads (path : String) : disk.source state.2 path =
          (workspace disk).readSource path state := rfl
      cases first with
      | unreadable read =>
          rw [documentation?_of_error ((reads _).trans read)]
          exact ⟨rfl, rfl⟩
      | uncommented read block =>
          rw [documentation?_of_ok ((reads _).trans read), block]
          exact ⟨rfl, rfl⟩
      | offline _ _ asked => cases asked
      | rendered read block asked handed =>
          cases asked
          cases handed
          rw [documentation?_of_ok ((reads _).trans read), block]
          exact ⟨rfl, rfl⟩

theorem saves_eq (disk : Disk δ) (config : Config) (units : Units)
    (store : MemoryStore) (files : δ) :
    units.saves (workspace disk) config (store, files) =
      (units.pages config (disk.source files) store).map
        (SaveCall.published store.baseUrl) := by
  cases units with
  | routes listed =>
      obtain ⟨outcomes, final, calm, _⟩ :=
        exists_calmPass disk config listed store files
      obtain ⟨drafts, entries⟩ := drafts_of_routeRuns calm.runs
      rw [Units.saves_routes calm, routeDrafts, drafts, entries]
      rfl
  | tables registry =>
      obtain ⟨_, _, calls⟩ :=
        registryCalls_eq disk config registry store files
      rw [Units.saves_tables, calls]
      rfl

/-! ## Pages and keys after saves -/

theorem keys_map_stored (baseUrl : Option String) (drafts : List PageDraft) :
    Assoc.keys (drafts.map (stored baseUrl)) = drafts.map PageDraft.key := by
  rw [Assoc.keys, List.map_map]
  apply List.map_congr_left
  intro draft _
  rw [Function.comp_apply, stored]

theorem get?_saveAll_of_not_mem {drafts : List PageDraft} {key : String}
    (untouched : key ∉ drafts.map PageDraft.key) (store : MemoryStore) :
    Assoc.get? key (store.saveAll drafts).pages =
      Assoc.get? key store.pages := by
  apply Assoc.get?_putAll_of_not_mem
  rwa [keys_map_stored]

/-- A key has the page that was saved under it last. -/
theorem exists_last_saved {drafts : List PageDraft} {key : String}
    (touched : key ∈ drafts.map PageDraft.key) (store : MemoryStore) :
    ∃ before draft after, drafts = before ++ draft :: after ∧
      draft.key = key ∧ key ∉ after.map PageDraft.key ∧
      (store.saveAll drafts).Holds draft := by
  induction drafts using List.reverseRecOn with
  | nil => cases touched
  | append_singleton earlier last ih =>
      by_cases own : last.key = key
      · refine ⟨earlier, last, [], rfl, own, List.not_mem_nil, ?_⟩
        exact holds_saveAll (fun _ member => by cases member) store
      · rw [List.map_append, List.mem_append] at touched
        have before : key ∈ earlier.map PageDraft.key := by
          apply touched.resolve_right
          rw [List.map_singleton, List.mem_singleton]
          exact Ne.symm own
        obtain ⟨front, draft, back, rfl, same, absent, _⟩ := ih before
        have later : key ∉ (back ++ [last]).map PageDraft.key := by
          rw [List.map_append, List.mem_append, List.map_singleton,
            List.mem_singleton]
          rintro (member | other)
          · exact absent member
          · exact own other.symm
        refine ⟨front, draft, back ++ [last], by simp, same, later, ?_⟩
        rw [List.append_assoc, List.cons_append]
        apply holds_saveAll
        intro other member equal
        exact later (same ▸ equal ▸ List.mem_map_of_mem member)

theorem keys_saveAll (drafts : List PageDraft) (store : MemoryStore) :
    Assoc.keys (store.saveAll drafts).pages =
      Assoc.keys store.pages ++
        ((drafts.map PageDraft.key).filter fun key =>
          key ∉ Assoc.keys store.pages).eraseDups := by
  rw [saveAll, Assoc.keys_putAll_append, keys_map_stored]

/-- What a pass does to a memory store.  It saves the pages of its units, in the
order of the registry, and those of its indexes, each after its units.  The keys
of these pages have the last page that was saved under them, with its text, its
display order and the URL of the key; all other keys have what they had.  Keys
keep their places, and new ones follow in the order of their first save. -/
theorem pass_touches (disk : Disk δ) (config : Config) (units : Units)
    (store : MemoryStore) (files : δ) :
    let saved := units.pages config (disk.source files) store
    let touched := units.touchedKeys config (disk.source files)
    let after := (units.pass (workspace disk) config (store, files)).state.1
    units.saves (workspace disk) config (store, files) =
        saved.map (SaveCall.published store.baseUrl) ∧
      saved.map PageDraft.key = touched ∧
      (∀ key ∉ touched,
        Assoc.get? key after.pages = Assoc.get? key store.pages) ∧
      (∀ key ∈ touched, ∃ earlier draft later,
        saved = earlier ++ draft :: later ∧ draft.key = key ∧
          key ∉ later.map PageDraft.key ∧
          Assoc.get? key after.pages =
            some ⟨draft.content, draft.order, pageUrl store.baseUrl key⟩) ∧
      Assoc.keys after.pages = Assoc.keys store.pages ++
        (touched.filter fun key => key ∉ Assoc.keys store.pages).eraseDups := by
  intro saved touched after
  have saves := saves_eq disk config units store files
  have keys : saved.map PageDraft.key = touched := units.keys_pages store
  have stored : after = store.saveAll saved := by
    have state := pass_state disk config units store files
    rw [saves, SaveCall.map_draft_published] at state
    exact congrArg Prod.fst state
  refine ⟨saves, keys, ?_, ?_, ?_⟩
  · intro key untouched
    rw [stored]
    apply get?_saveAll_of_not_mem
    rwa [keys]
  · intro key member
    rw [← keys] at member
    obtain ⟨earlier, draft, later, split, rfl, last, held⟩ :=
      exists_last_saved member store
    refine ⟨earlier, draft, later, split, rfl, last, ?_⟩
    rw [stored]
    exact held
  · rw [stored, keys_saveAll, keys]

end MemoryStore

end TagDoc
