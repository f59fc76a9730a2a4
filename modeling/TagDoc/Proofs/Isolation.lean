import TagDoc.Proofs.MemoryRuns

/-!
# Routes do not disturb each other

A pass over routes is taken apart into its steps, one for each route, with the
saves that each asks for.  Two passes that read the same sources for all routes
but one go through stores that list the same pages, apart from the page of that
route.  So every other step ends alike, and its page differs at most in links
to that page: `routes_isolated`.
-/

namespace TagDoc

variable {σ δ : Type}

/-! ## The steps of a pass -/

/-- What documenting each route of a pass gives, with the saves that it asks
for. -/
def routeSteps (space : Workspace σ) (config : Config) :
    List Route → Nat → σ → List (UnitRun (σ × List SaveCall))
  | [], _, _ => []
  | route :: rest, order, state =>
      let step := documentRoute space.logged config route order (state, [])
      step :: routeSteps space config rest (order + 1) step.state.1

/-- A pass over routes is made of these steps, one for each route; after them
it has to do with the index page only. -/
structure MadeOf (space : Workspace σ) (config : Config) (routes : List Route)
    (state : σ) (steps : List (UnitRun (σ × List SaveCall))) : Prop where
  length : steps.length = routes.length
  entries : (apiPass space config routes state).report.entries =
    steps.filterMap UnitRun.entry
  findings : steps.flatMap UnitRun.findings <+:
    (apiPass space config routes state).findings
  saves : steps.flatMap (fun step => step.state.2) <+:
    (apiPass space.logged config routes (state, [])).state.2

section Steps

variable {space : Workspace σ} {config : Config}

theorem RouteRun.step_eq {route : Route} {order : Nat} {state after : σ}
    {outcome : RouteOutcome}
    (run : RouteRun space config route order state outcome after) :
    documentRoute space.logged config route order (state, []) =
      ⟨valueOf? (outcome.result config route), outcome.findings config route,
        (after, (outcome.save? config route order).toList)⟩ :=
  (run.logged []).documentRoute_eq

theorem RouteRuns.steps_eq {routes : List Route} {order : Nat}
    {state final : σ} {outcomes : List RouteOutcome}
    (runs : RouteRuns space config routes order state outcomes final) :
    let steps := routeSteps space config routes order state
    steps.length = routes.length ∧
      steps.filterMap UnitRun.entry =
        (routeResults config routes outcomes).filterMap valueOf? ∧
      steps.flatMap UnitRun.findings =
        (List.zipWith (fun route outcome => outcome.findings config route)
          routes outcomes).flatten ∧
      steps.flatMap (fun step => step.state.2) =
        routeSaves config routes order outcomes := by
  induction runs with
  | nil => exact ⟨rfl, rfl, rfl, rfl⟩
  | cons first _ ih =>
      obtain ⟨length, entries, findings, saves⟩ := ih
      simp only [routeSteps, first.step_eq, routeSaves_cons, ← saves,
        List.flatMap_cons, findings, List.zipWith_cons_cons,
        List.flatten_cons, List.length_cons, length, List.filterMap_cons,
        entries, routeResults, and_self]

theorem madeOf_routeSteps (space : Workspace σ) (config : Config)
    (routes : List Route) (state : σ) :
    MadeOf space config routes state
      (routeSteps space config routes firstUnitOrder state) := by
  obtain ⟨outcomes, final, runs⟩ :=
    exists_routeRuns space config routes firstUnitOrder state
  obtain ⟨length, entries, findings, saves⟩ := runs.steps_eq
  have plain := runs.apiPass_eq
  have logged := (runs.logged []).apiPass_eq
  refine ⟨length, ?_, ?_, ?_⟩
  · rw [plain, entries]
    rfl
  · rw [plain, findings, accountOf, List.append_assoc]
    exact List.prefix_append _ _
  · rw [logged, saves, accountOf]
    exact List.prefix_append _ _

end Steps

/-! ## Two steps for one route -/

/-- Two saves of one page with the same answer.  The pages differ at most in
links to touched pages. -/
structure SaveCall.Alike (config : Config) (touched : String → Prop)
    (first second : SaveCall) : Prop where
  draft : first.draft.Alike config touched second.draft
  saved : first.saved = second.saved

/-- Two steps for one route that succeed or fail alike, with the same index
entry, the same findings and the same display order, and with pages that differ
at most in links to touched pages. -/
structure SameStep (config : Config) (touched : String → Prop) (order : Nat)
    (first second : UnitRun (σ × List SaveCall)) : Prop where
  entry : first.entry = second.entry
  findings : first.findings = second.findings
  order : ∀ call ∈ first.state.2, call.draft.order = order
  saves : List.Forall₂ (SaveCall.Alike config touched) first.state.2
    second.state.2

theorem key_routeDraft (config : Config) (route : Route) (order : Nat)
    (doc : DocComment) (pages : PageIndex) :
    (routeDraft config route order doc pages).key =
      pageKey config.api.docPath route.path := rfl

theorem RouteOutcome.order_save? {config : Config} {route : Route}
    {order : Nat} {outcome : RouteOutcome} {call : SaveCall}
    (made : outcome.save? config route order = some call) :
    call.draft.order = order := by
  cases outcome with
  | rendered doc pages saved =>
      cases made
      rfl
  | unreadable failure => cases made
  | uncommented => cases made
  | offline doc failure => cases made

theorem RouteOutcome.Twins.calls_alike {seen seen' : PageIndex → Prop}
    {outcome outcome' : RouteOutcome}
    (twins : Twins seen seen' outcome outcome') {config : Config}
    {touched : String → Prop}
    (agree : ∀ pages pages', seen pages → seen' pages' →
      ∀ key, ¬ touched key → Assoc.get? key pages = Assoc.get? key pages')
    (route : Route) (order : Nat) :
    List.Forall₂ (SaveCall.Alike config touched)
      (outcome.save? config route order).toList
      (outcome'.save? config route order).toList := by
  have drafts : List.Forall₂ (fun call call' =>
        PageDraft.Alike config touched call.draft call'.draft)
      (outcome.save? config route order).toList
      (outcome'.save? config route order).toList :=
    twins.saves_alike agree route order
  cases twins with
  | unreadable failure => exact .nil
  | uncommented => exact .nil
  | rendered listed listed' =>
      cases drafts with
      | cons draft _ => exact .cons ⟨draft, rfl⟩ .nil

/-! ## Stores side by side -/

namespace MemoryStore

theorem index_save (draft : PageDraft) (store : MemoryStore) :
    (store.save draft).2.index =
      Assoc.put draft.key (pageUrl store.baseUrl draft.key) store.index :=
  Assoc.map_put StoredPage.url draft.key
    ⟨draft.content, draft.order, pageUrl store.baseUrl draft.key⟩ store.pages

/-- Two states with the given disks, whose stores list the same pages apart
from that of one key. -/
structure Beside (key : String) (files files' : δ)
    (state state' : MemoryStore × δ) : Prop where
  files : state.2 = files
  files' : state'.2 = files'
  baseUrl : state.1.baseUrl = state'.1.baseUrl
  listed : ∀ other, other ≠ key →
    Assoc.get? other state.1.index = Assoc.get? other state'.1.index

theorem Beside.symm {key : String} {files files' : δ}
    {state state' : MemoryStore × δ}
    (beside : Beside key files files' state state') :
    Beside key files' files state' state where
  files := beside.files'
  files' := beside.files
  baseUrl := beside.baseUrl.symm
  listed other different := (beside.listed other different).symm

section Refusing

variable {disk : Disk δ} {refused : List String} {key : String}
  {files files' : δ} {state state' : MemoryStore × δ}

/-- A store that refuses the pages of certain keys. -/
def refusing (disk : Disk δ) (refused : List String) :
    Workspace (MemoryStore × δ) :=
  (workspace disk).withOutage { refusedKeys := refused }

theorem save_refusing (draft : PageDraft) (state : MemoryStore × δ) :
    (refusing disk refused).save draft state =
      if refused.contains draft.key then
        (.error (.refused ("save refused: " ++ draft.key) "disk full"), state)
      else
        (.ok (pageUrl state.1.baseUrl draft.key),
          ((state.1.save draft).2, state.2)) := rfl

theorem Beside.save (beside : Beside key files files' state state')
    {draft draft' : PageDraft} (same : draft.key = draft'.key) :
    ((refusing disk refused).save draft state).1 =
        ((refusing disk refused).save draft' state').1 ∧
      Beside key files files' ((refusing disk refused).save draft state).2
        ((refusing disk refused).save draft' state').2 := by
  rw [save_refusing, save_refusing, same]
  split
  · exact ⟨rfl, beside⟩
  · refine ⟨by rw [beside.baseUrl],
      beside.files, beside.files', beside.baseUrl, ?_⟩
    intro other different
    rw [index_save, index_save, same, beside.baseUrl]
    by_cases here : other = draft'.key
    · rw [here, Assoc.get?_put_self, Assoc.get?_put_self]
    · rw [Assoc.get?_put_of_ne _ _ here, Assoc.get?_put_of_ne _ _ here]
      exact beside.listed other different

theorem Beside.save_own (beside : Beside key files files' state state')
    {draft : PageDraft} (own : draft.key = key) :
    Beside key files files' ((refusing disk refused).save draft state).2
      state' := by
  rw [save_refusing]
  split
  · exact beside
  · refine ⟨beside.files, beside.files', beside.baseUrl, ?_⟩
    intro other different
    rw [index_save, own, Assoc.get?_put_of_ne _ _ different]
    exact beside.listed other different

variable {config : Config} {route : Route} {order : Nat}

theorem Beside.own_route {outcome : RouteOutcome} {after : MemoryStore × δ}
    (beside : Beside key files files' state state')
    (own : pageKey config.api.docPath route.path = key)
    (run : RouteRun (refusing disk refused) config route order state outcome
      after) :
    Beside key files files' after state' := by
  cases run with
  | unreadable _ => exact beside
  | uncommented _ _ => exact beside
  | offline _ _ asked => cases asked
  | @rendered _ _ _ doc pages _ _ _ asked handed =>
      cases asked
      have stored : Beside key files files'
          ((refusing disk refused).save
            (routeDraft config route order doc.value state.1.index) state).2
          state' := beside.save_own own
      rw [handed] at stored
      exact stored

/-- A route whose source reads the same on both sides ends alike on both
sides. -/
theorem Beside.exists_twin {outcome : RouteOutcome} {after : MemoryStore × δ}
    (beside : Beside key files files' state state')
    (reads : disk.source files (handlerUnit config route) =
      disk.source files' (handlerUnit config route))
    (run : RouteRun (refusing disk refused) config route order state outcome
      after) :
    ∃ outcome' after',
      RouteRun (refusing disk refused) config route order state' outcome'
          after' ∧
        Beside key files files' after after' ∧
        outcome.Twins (· = state.1.index) (· = state'.1.index) outcome' := by
  have source {answer : Except Failure String}
      (read : (refusing disk refused).readSource (handlerUnit config route)
        state = answer) :
      (refusing disk refused).readSource (handlerUnit config route) state' =
        answer := by
    have here : disk.source state.2 (handlerUnit config route) = answer := read
    have there : disk.source state'.2 (handlerUnit config route) = answer := by
      rw [beside.files', ← reads, ← beside.files, here]
    exact there
  cases run with
  | unreadable read =>
      exact ⟨_, _, .unreadable (source read), beside, .unreadable _⟩
  | uncommented read block =>
      exact ⟨_, _, .uncommented (source read) block, beside, .uncommented⟩
  | offline _ _ asked => cases asked
  | @rendered _ _ _ doc _ _ read block asked handed =>
      cases asked
      let page (pages : PageIndex) : PageDraft :=
        routeDraft config route order doc.value pages
      have same : (page state.1.index).key = (page state'.1.index).key := by
        rw [key_routeDraft, key_routeDraft]
      have stored : ((refusing disk refused).save (page state.1.index)
            state).1 =
          ((refusing disk refused).save (page state'.1.index) state').1 ∧ _ :=
        beside.save same
      cases answer : (refusing disk refused).save (page state'.1.index)
          state' with
      | mk saved' after' =>
          rw [handed, answer] at stored
          obtain ⟨rfl, kept⟩ := stored
          exact ⟨_, after', .rendered (source read) block rfl answer, kept,
            .rendered rfl rfl⟩

/-- Two passes whose sources differ only for routes that publish under the key
go alike, step by step, for all other routes. -/
theorem Beside.steps_alike {routes : List Route}
    {changed : Nat → Prop}
    (beside : Beside key files files' state state')
    (own : ∀ j route, routes[j]? = some route → changed j →
      pageKey config.api.docPath route.path = key)
    (reads : ∀ j route, routes[j]? = some route → ¬ changed j →
      disk.source files (handlerUnit config route) =
        disk.source files' (handlerUnit config route)) :
    ∀ j, ¬ changed j →
      Option.Rel (SameStep config (· = key) (order + j))
        (routeSteps (refusing disk refused) config routes order state)[j]?
        (routeSteps (refusing disk refused) config routes order state')[j]? := by
  induction routes generalizing order state state' changed with
  | nil => exact fun _ _ => .none
  | cons route rest ih =>
      obtain ⟨outcome, after, run⟩ := exists_routeRun (refusing disk refused)
        config route order state
      -- The stores stay side by side, whether the source of the first route
      -- is changed or not; if not, its steps are the same.
      have first : ∃ outcome' after',
          RouteRun (refusing disk refused) config route order state' outcome'
              after' ∧
            Beside key files files' after after' ∧
            (¬ changed 0 →
              outcome.Twins (· = state.1.index) (· = state'.1.index)
                outcome') := by
        by_cases here : changed 0
        · obtain ⟨outcome', after', run'⟩ := exists_routeRun
            (refusing disk refused) config route order state'
          have key_eq := own 0 route rfl here
          have left := beside.own_route key_eq run
          exact ⟨outcome', after', run', (left.symm.own_route key_eq run').symm,
            fun unchanged => (unchanged here).elim⟩
        · obtain ⟨outcome', after', run', kept, twins⟩ :=
            beside.exists_twin (reads 0 route rfl here) run
          exact ⟨outcome', after', run', kept, fun _ => twins⟩
      obtain ⟨outcome', after', run', kept, twins⟩ := first
      rw [routeSteps, routeSteps, run.step_eq, run'.step_eq]
      intro j unchanged
      cases j with
      | zero =>
          have agree : ∀ pages pages', pages = state.1.index →
              pages' = state'.1.index → ∀ other, ¬ other = key →
                Assoc.get? other pages = Assoc.get? other pages' := by
            rintro _ _ rfl rfl
            exact beside.listed
          have same := twins unchanged
          refine .some ⟨?_, same.findings_eq config route, ?_,
            same.calls_alike agree route order⟩
          · rw [same.result_eq config route]
          · intro call member
            exact RouteOutcome.order_save? (Option.mem_toList.mp member)
      | succ j =>
          have others : Option.Rel
              (SameStep config (· = key) (order + 1 + j))
              (routeSteps (refusing disk refused) config rest (order + 1)
                after)[j]?
              (routeSteps (refusing disk refused) config rest (order + 1)
                after')[j]? :=
            ih kept (fun j => own (j + 1)) (fun j => reads (j + 1)) j unchanged
          rw [Nat.add_assoc, Nat.add_comm 1 j] at others
          exact others

end Refusing

/-- Two passes over the same routes, with the same store and the same refused
pages, whose sources read differently for one route only, have the same steps
for all other routes: each succeeds or fails alike, with the same entry, the
same findings and the same display order, and the page that it hands over
differs at most in links to the page of the one route. -/
theorem routes_isolated (disk : Disk δ) (config : Config)
    (routes : List Route) (refused : List String) (store : MemoryStore)
    (files files' : δ) (i : Nat) (changed : Route)
    (at_i : routes[i]? = some changed)
    (others : ∀ j route, j ≠ i → routes[j]? = some route →
      disk.source files (handlerUnit config route) =
        disk.source files' (handlerUnit config route)) :
    let space := (workspace disk).withOutage { refusedKeys := refused }
    let steps := routeSteps space config routes 2 (store, files)
    let steps' := routeSteps space config routes 2 (store, files')
    MadeOf space config routes (store, files) steps ∧
      MadeOf space config routes (store, files') steps' ∧
      ∀ j, j ≠ i →
        Option.Rel
          (SameStep config (· = pageKey config.api.docPath changed.path)
            (2 + j))
          steps[j]? steps'[j]? := by
  intro space steps steps'
  refine ⟨madeOf_routeSteps space config routes (store, files),
    madeOf_routeSteps space config routes (store, files'), ?_⟩
  have start : Beside (pageKey config.api.docPath changed.path) files files'
      (store, files) (store, files') :=
    ⟨rfl, rfl, rfl, fun _ _ => rfl⟩
  refine start.steps_alike ?_ ?_
  · rintro _ route there rfl
    rw [Option.some.inj (at_i.symm.trans there)]
  · intro j route there other
    exact others j route other there

/-- Where the source of one route is missing, a page that names it loses a link
and nothing else; a refused page is refused on both sides. -/
theorem routes_isolated_linked :
    let config : Config := { db := [("main", { path := "api" })] }
    let routes : List Route :=
      [{ key := "list", path := "/user" }, { key := "create", path := "/new" },
        { key := "drop", path := "/drop" }]
    let others : List (String × FileEntry) :=
      [("create.js", .file (.readable "/** Create.\n * @table main/user\n */")),
        ("drop.js", .file (.readable "/** Drop. */"))]
    let files := FileSystem.ofEntries
      (("list.js", .file (.readable "/** List. */")) :: others)
    let files' := FileSystem.ofEntries others
    let space := (workspace FileSystem.disk).withOutage
      { refusedKeys := ["api/drop"] }
    let steps := routeSteps space config routes 2 ({}, files)
    let steps' := routeSteps space config routes 2 ({}, files')
    steps.map (fun step => step.entry.isSome) = [true, true, false] ∧
      steps'.map (fun step => step.entry.isSome) = [false, true, false] ∧
      (steps[1]?.map fun step => step.state.2.map SaveCall.draft) ≠
        (steps'[1]?.map fun step => step.state.2.map SaveCall.draft) ∧
      ∀ j, j ≠ 0 →
        Option.Rel (SameStep config (· = "api/user") (2 + j)) steps[j]?
          steps'[j]? := by
  intro config routes others files files' space steps steps'
  refine ⟨by decide +kernel, by decide +kernel, by decide +kernel, ?_⟩
  have key : pageKey config.api.docPath "/user" = "api/user" := by
    decide +kernel
  rw [← key]
  refine (routes_isolated FileSystem.disk config routes ["api/drop"] {} files
    files' 0 { key := "list", path := "/user" } rfl ?_).2.2
  intro j route other there
  match j with
  | 0 => exact (other rfl).elim
  | 1 =>
      cases there
      decide +kernel
  | 2 =>
      cases there
      decide +kernel
  | j + 3 => cases there

end MemoryStore

end TagDoc
