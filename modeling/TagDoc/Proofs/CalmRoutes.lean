import TagDoc.Proofs.CalmRuns

/-!
# Passes over routes that no store refuses

`RouteOutcome.Calm` describes how documenting a route ends when its handler
source is what it is said to be and the store refuses nothing; only the page
index is left open.  Two passes with such outcomes have the same entries and
findings, and their pages differ in links only: `CalmPass.report_eq`,
`CalmPass.findings_eq` and `CalmPass.alike`.
-/

namespace TagDoc

variable {σ τ : Type}

/-- Every handler source reads as it is said to when its turn comes. -/
def SourcesRead (space : Workspace σ) (config : Config)
    (sources : String → Except Failure String) : List Route → Nat → σ → Prop
  | [], _, _ => True
  | route :: rest, order, state =>
      space.readSource (handlerUnit config route) state =
          sources (handlerUnit config route) ∧
        SourcesRead space config sources rest (order + 1)
          (documentRoute space config route order state).state

theorem sourcesRead_of_keeps {space : Workspace σ} {config : Config}
    {sources : String → Except Failure String} {holds : σ → Prop}
    (keeps : space.Keeps holds)
    (reads : ∀ path state, holds state →
      space.readSource path state = sources path)
    (routes : List Route) (order : Nat) {state : σ} (before : holds state) :
    SourcesRead space config sources routes order state := by
  induction routes generalizing order state with
  | nil => trivial
  | cons route rest ih =>
      refine ⟨reads _ state before, ih (order + 1) ?_⟩
      obtain ⟨outcome, after, run⟩ :=
        exists_routeRun space config route order state
      rw [run.documentRoute_eq]
      exact run.keeps keeps before

/-- How documenting a route ends when nothing is refused.  The page index that
its page is made against has a property. -/
inductive RouteOutcome.Calm (config : Config) (baseUrl : Option String)
    (sources : String → Except Failure String) (seen : PageIndex → Prop)
    (route : Route) : RouteOutcome → Prop where
  | unreadable {failure : Failure} :
      sources (handlerUnit config route) = .error failure →
      Calm config baseUrl sources seen route (.unreadable failure)
  | uncommented {source : String} :
      sources (handlerUnit config route) = .ok source →
      DocComment.ofSource? (handlerUnit config route) source = none →
      Calm config baseUrl sources seen route .uncommented
  | rendered {source : String} {doc : Diagnosed DocComment}
      {pages : PageIndex} :
      sources (handlerUnit config route) = .ok source →
      DocComment.ofSource? (handlerUnit config route) source = some doc →
      seen pages →
      Calm config baseUrl sources seen route
        (.rendered doc pages
          (.ok (pageUrl baseUrl (pageKey config.api.docPath route.path))))

/-- Two drafts of one page, which differ at most in links to touched pages. -/
structure PageDraft.Alike (config : Config) (touched : String → Prop)
    (first second : PageDraft) : Prop where
  directory : first.directory = second.directory
  name : first.name = second.name
  order : first.order = second.order
  content : SameButLinks config touched first.content second.content

namespace PageDraft.Alike

variable {config : Config} {touched : String → Prop}
  {first second : PageDraft}

theorem refl (draft : PageDraft) : draft.Alike config touched draft :=
  ⟨rfl, rfl, rfl, .refl _⟩

theorem key (alike : first.Alike config touched second) :
    first.key = second.key := by
  rw [PageDraft.key, PageDraft.key, alike.directory, alike.name]

theorem eq (alike : first.Alike config touched second)
    (untouched : ∀ key, ¬ touched key) : first = second := by
  obtain ⟨directory, name, content, order⟩ := first
  obtain ⟨sameDirectory, sameName, sameOrder, same⟩ := alike
  have text := same.eq untouched
  dsimp only at sameDirectory sameName sameOrder text
  rw [sameDirectory, sameName, sameOrder, text]

end PageDraft.Alike

/-! ## Single routes -/

/-- Two outcomes that differ at most in the page indexes, which have properties
of their own. -/
inductive RouteOutcome.Twins (seen seen' : PageIndex → Prop) :
    RouteOutcome → RouteOutcome → Prop where
  | unreadable (failure : Failure) :
      Twins seen seen' (.unreadable failure) (.unreadable failure)
  | uncommented : Twins seen seen' .uncommented .uncommented
  | rendered {doc : Diagnosed DocComment} {pages pages' : PageIndex}
      {saved : Except Failure String} :
      seen pages → seen' pages' →
      Twins seen seen' (.rendered doc pages saved) (.rendered doc pages' saved)

/-- A source decides how documenting its route ends, up to the page index. -/
theorem RouteOutcome.Calm.twins {config : Config} {baseUrl : Option String}
    {sources : String → Except Failure String} {seen seen' : PageIndex → Prop}
    {route : Route} {outcome outcome' : RouteOutcome}
    (calm : Calm config baseUrl sources seen route outcome)
    (calm' : Calm config baseUrl sources seen' route outcome') :
    Twins seen seen' outcome outcome' := by
  cases calm with
  | unreadable read =>
      cases calm' with
      | unreadable read' =>
          cases read.symm.trans read'
          exact .unreadable _
      | uncommented read' => cases read.symm.trans read'
      | rendered read' => cases read.symm.trans read'
  | uncommented read block =>
      cases calm' with
      | unreadable read' => cases read.symm.trans read'
      | uncommented => exact .uncommented
      | rendered read' block' =>
          cases read.symm.trans read'
          cases block.symm.trans block'
  | rendered read block listed =>
      cases calm' with
      | unreadable read' => cases read.symm.trans read'
      | uncommented read' block' =>
          cases read.symm.trans read'
          cases block.symm.trans block'
      | rendered read' block' listed' =>
          cases read.symm.trans read'
          cases block.symm.trans block'
          exact .rendered listed listed'

namespace RouteOutcome.Twins

variable {seen seen' : PageIndex → Prop} {outcome outcome' : RouteOutcome}

theorem result_eq (twins : Twins seen seen' outcome outcome')
    (config : Config) (route : Route) :
    outcome.result config route = outcome'.result config route := by
  cases twins with
  | unreadable failure => rfl
  | uncommented => rfl
  | @rendered doc pages pages' saved _ _ => cases saved <;> rfl

theorem findings_eq (twins : Twins seen seen' outcome outcome')
    (config : Config) (route : Route) :
    outcome.findings config route = outcome'.findings config route := by
  have remarks : outcome.remarks config route =
      outcome'.remarks config route := by
    cases twins with
    | unreadable failure => rfl
    | uncommented => rfl
    | rendered =>
        simp only [RouteOutcome.remarks]
        rw [findings_routePage_congr]
  rw [RouteOutcome.findings, RouteOutcome.findings, remarks,
    twins.result_eq config route]

/-- Where the page indexes differ on touched keys only, the pages differ in
links to them only. -/
theorem saves_alike (twins : Twins seen seen' outcome outcome')
    {config : Config} {touched : String → Prop}
    (agree : ∀ pages pages', seen pages → seen' pages' →
      ∀ key, ¬ touched key → Assoc.get? key pages = Assoc.get? key pages')
    (route : Route) (order : Nat) :
    List.Forall₂ (fun call call' =>
        PageDraft.Alike config touched call.draft call'.draft)
      (outcome.save? config route order).toList
      (outcome'.save? config route order).toList := by
  cases twins with
  | unreadable failure => exact .nil
  | uncommented => exact .nil
  | rendered listed listed' =>
      refine .cons ⟨rfl, rfl, rfl, ?_⟩ .nil
      exact sameButLinks_routePage (agree _ _ listed listed') _ _ route

end RouteOutcome.Twins

/-- Every route whose source is what it is said to be ends calmly, in states
with a property that neither asking for the page index nor the saves of these
routes break. -/
theorem RouteRuns.calm {space : Workspace σ} {config : Config}
    {baseUrl : Option String} {sources : String → Except Failure String}
    {seen : PageIndex → Prop} {sound holds : σ → Prop} {routes : List Route}
    {order : Nat} {state after : σ} {outcomes : List RouteOutcome}
    (serves : space.Serves baseUrl sound)
    (implied : ∀ state, holds state → sound state)
    (listed : ∀ state pages, holds state →
      (space.pages state).1 = .ok pages → seen pages)
    (asked : ∀ state, holds state → holds (space.pages state).2)
    (stored : ∀ call ∈ routeSaves config routes order outcomes, ∀ state,
      holds state → holds (space.save call.draft state).2)
    (runs : RouteRuns space config routes order state outcomes after)
    (reads : SourcesRead space config sources routes order state)
    (succeeded : ∀ call ∈ routeSaves config routes order outcomes,
      call.Succeeded)
    (before : holds state) :
    List.Forall₂ (RouteOutcome.Calm config baseUrl sources seen) routes
        outcomes ∧
      holds after := by
  induction runs with
  | nil => exact ⟨.nil, before⟩
  | @cons route rest order state middle after outcome outcomes first _ ih =>
      rw [routeSaves_cons] at stored succeeded
      obtain ⟨read, others⟩ := reads
      rw [first.documentRoute_eq] at others
      have later := ih
        (fun call member => stored call (List.mem_append_right _ member))
        others
        (fun call member => succeeded call (List.mem_append_right _ member))
      have here : RouteOutcome.Calm config baseUrl sources seen route outcome ∧
          holds middle := by
        cases first with
        | unreadable unread => exact ⟨.unreadable (read ▸ unread), before⟩
        | uncommented found block =>
            exact ⟨.uncommented (read ▸ found) block, before⟩
        | offline _ _ refused =>
            obtain ⟨pages, given⟩ := serves.pages state (implied state before)
            rw [refused] at given
            cases given
        | @rendered next _ _ doc pages saved found block given handed =>
            have opened : holds next := by
              have kept := asked state before
              rwa [given] at kept
            have call : SaveCall.mk
                (routeDraft config route order doc.value pages) saved ∈
                ((RouteOutcome.rendered doc pages saved).save? config route
                  order).toList := List.mem_singleton_self _
            have member := List.mem_append_left
              (routeSaves config rest (order + 1) outcomes) call
            have own := serves.answer (implied next opened)
              (by rw [handed]; exact succeeded _ member)
            have kept := stored _ member next opened
            rw [handed] at own kept
            dsimp only at own kept
            subst own
            exact ⟨.rendered (read ▸ found) block
              (listed state pages before (by rw [given])), kept⟩
      obtain ⟨calm, between⟩ := here
      obtain ⟨rest, final⟩ := later between
      exact ⟨.cons calm rest, final⟩

/-! ## Whole passes -/

/-- The index page of routes with the given entries. -/
def routeIndexDraft (config : Config) (entries : List IndexEntry) :
    PageDraft where
  directory := config.api.indexPath
  name := config.api.indexName
  content := (Page.ofIndex "接口" config.api.groups entries).value.markdown
  order := indexOrder

/-- The entries of routes with the given outcomes. -/
def routeEntries (config : Config) (routes : List Route)
    (outcomes : List RouteOutcome) : List IndexEntry :=
  (routeResults config routes outcomes).filterMap valueOf?

theorem routeEntries_cons (config : Config) (route : Route) (rest : List Route)
    (outcome : RouteOutcome) (outcomes : List RouteOutcome) :
    routeEntries config (route :: rest) (outcome :: outcomes) =
      (valueOf? (outcome.result config route)).toList ++
        routeEntries config rest outcomes := by
  simp only [routeEntries, routeResults, List.zipWith_cons_cons]
  cases outcome.result config route with
  | error finding => simp [List.filterMap_cons]
  | ok entry => simp

/-- The pages of a pass over routes, that of the index last. -/
def routeDrafts (config : Config) (routes : List Route)
    (outcomes : List RouteOutcome) : List PageDraft :=
  (routeSaves config routes firstUnitOrder outcomes).map SaveCall.draft ++
    [routeIndexDraft config (routeEntries config routes outcomes)]

theorem RouteRuns.apiPass_logged {space : Workspace σ} {config : Config}
    {routes : List Route} {state final : σ} {outcomes : List RouteOutcome}
    (runs : RouteRuns space config routes firstUnitOrder state outcomes final)
    (log : List SaveCall) :
    let run := apiPass space config routes state
    let index :=
      routeIndexDraft config (routeEntries config routes outcomes)
    apiPass space.logged config routes (state, log) =
      { report := run.report
        findings := run.findings
        state := (run.state,
          log ++ (routeSaves config routes firstUnitOrder outcomes ++
            [⟨index, (space.save index final).1⟩])) } := by
  intro run index
  simp only [run, RouteRuns.apiPass_eq runs,
    RouteRuns.apiPass_eq (runs.logged log), accountOf, save_logged,
    List.append_assoc]
  rfl

/-- A pass over routes in which no save was refused. -/
structure CalmPass (space : Workspace σ) (config : Config)
    (baseUrl : Option String) (sources : String → Except Failure String)
    (seen : PageIndex → Prop) (routes : List Route) (state : σ)
    (outcomes : List RouteOutcome) (final : σ) : Prop where
  runs : RouteRuns space config routes firstUnitOrder state outcomes final
  calm : List.Forall₂ (RouteOutcome.Calm config baseUrl sources seen) routes
    outcomes
  index : (space.save
      (routeIndexDraft config (routeEntries config routes outcomes)) final).1 =
    .ok (pageUrl baseUrl (pageKey config.api.indexPath config.api.indexName))

/-- A pass over routes is calm when its log has no failure, in states with a
property that the pass does not break. -/
theorem RouteRuns.calmPass {space : Workspace σ} {config : Config}
    {baseUrl : Option String} {sources : String → Except Failure String}
    {seen : PageIndex → Prop} {sound holds : σ → Prop} {routes : List Route}
    {state final : σ} {outcomes : List RouteOutcome}
    (serves : space.Serves baseUrl sound)
    (implied : ∀ state, holds state → sound state)
    (listed : ∀ state pages, holds state →
      (space.pages state).1 = .ok pages → seen pages)
    (asked : ∀ state, holds state → holds (space.pages state).2)
    (stored : ∀ call ∈ routeSaves config routes firstUnitOrder outcomes,
      ∀ state, holds state → holds (space.save call.draft state).2)
    (runs : RouteRuns space config routes firstUnitOrder state outcomes final)
    (reads : SourcesRead space config sources routes firstUnitOrder state)
    (succeeded : ∀ call ∈
      (apiPass space.logged config routes (state, [])).state.2, call.Succeeded)
    (before : holds state) :
    CalmPass space config baseUrl sources seen routes state outcomes final := by
  rw [runs.apiPass_logged, List.nil_append] at succeeded
  obtain ⟨calm, after⟩ := runs.calm serves implied listed asked stored reads
    (fun call member => succeeded call (List.mem_append_left _ member)) before
  have index := succeeded _ (List.mem_append_right _ List.mem_cons_self)
  exact ⟨runs, calm, serves.answer (implied final after) index⟩

section Pairs

variable {space : Workspace σ} {space' : Workspace τ} {config : Config}
  {baseUrl : Option String} {sources : String → Except Failure String}
  {seen seen' : PageIndex → Prop} {routes : List Route} {state final : σ}
  {state' final' : τ} {outcomes outcomes' : List RouteOutcome}

theorem twins_of_calm
    (calm : List.Forall₂ (RouteOutcome.Calm config baseUrl sources seen) routes
      outcomes)
    (calm' : List.Forall₂ (RouteOutcome.Calm config baseUrl sources seen')
      routes outcomes') :
    List.Forall₂ (RouteOutcome.Twins seen seen') outcomes outcomes' := by
  induction calm generalizing outcomes' with
  | nil =>
      cases calm'
      exact .nil
  | cons first _ ih =>
      cases calm' with
      | cons first' rest' => exact .cons (first.twins first') (ih rest')

theorem routeResults_congr (config : Config) (routes : List Route)
    (twins : List.Forall₂ (RouteOutcome.Twins seen seen') outcomes outcomes') :
    routeResults config routes outcomes =
      routeResults config routes outcomes' := by
  induction twins generalizing routes with
  | nil => rfl
  | cons first _ ih =>
      cases routes with
      | nil => rfl
      | cons route rest =>
          have tail := ih rest
          simp only [routeResults] at tail ⊢
          rw [List.zipWith_cons_cons, List.zipWith_cons_cons, tail,
            first.result_eq config route]

theorem zipWith_findings_congr (config : Config) (routes : List Route)
    (twins : List.Forall₂ (RouteOutcome.Twins seen seen') outcomes outcomes') :
    List.zipWith (fun route outcome => outcome.findings config route) routes
        outcomes =
      List.zipWith (fun route outcome => outcome.findings config route) routes
        outcomes' := by
  induction twins generalizing routes with
  | nil => rfl
  | cons first _ ih =>
      cases routes with
      | nil => rfl
      | cons route rest =>
          rw [List.zipWith_cons_cons, List.zipWith_cons_cons, ih rest,
            first.findings_eq config route]

theorem routeSaves_alike {touched : String → Prop}
    (agree : ∀ pages pages', seen pages → seen' pages' →
      ∀ key, ¬ touched key → Assoc.get? key pages = Assoc.get? key pages')
    (routes : List Route) (order : Nat)
    (twins : List.Forall₂ (RouteOutcome.Twins seen seen') outcomes outcomes') :
    List.Forall₂ (fun call call' =>
        PageDraft.Alike config touched call.draft call'.draft)
      (routeSaves config routes order outcomes)
      (routeSaves config routes order outcomes') := by
  induction twins generalizing routes order with
  | nil =>
      rw [routeSaves, List.zip_nil_right]
      exact .nil
  | cons first _ ih =>
      cases routes with
      | nil => exact .nil
      | cons route rest =>
          rw [routeSaves_cons, routeSaves_cons]
          exact List.rel_append (first.saves_alike agree route order)
            (ih rest (order + 1))

variable (pass : CalmPass space config baseUrl sources seen routes state
    outcomes final)

include pass

theorem CalmPass.apiPass_eq :
    let entries := routeEntries config routes outcomes
    apiPass space config routes state =
      { report := ⟨(routeIndexDraft config entries).content, entries,
          ((routeResults config routes outcomes).filterMap errorOf?).length⟩
        findings :=
          (List.zipWith (fun route outcome => outcome.findings config route)
              routes outcomes).flatten ++
            (Page.ofIndex "接口" config.api.groups entries).findings
        state := (space.save (routeIndexDraft config entries) final).2 } := by
  intro entries
  have saved := pass.index
  rw [routeIndexDraft] at saved
  rw [pass.runs.apiPass_eq]
  simp only [accountOf, routeUnits]
  rw [show (1 : Nat) = indexOrder from rfl]
  simp only [routeEntries] at saved
  rw [saved, errorOf?_ok, Option.toList_none, List.map_nil, List.append_nil]
  rfl

theorem CalmPass.apiPass_logged (log : List SaveCall) :
    let run := apiPass space config routes state
    apiPass space.logged config routes (state, log) =
      { report := run.report
        findings := run.findings
        state := (run.state,
          log ++ (routeDrafts config routes outcomes).map
            (SaveCall.published baseUrl)) } := by
  intro run
  have units : ∀ (order : Nat),
      routeSaves config routes order outcomes =
        ((routeSaves config routes order outcomes).map SaveCall.draft).map
          (SaveCall.published baseUrl) := by
    have calm := pass.calm
    clear pass
    induction calm with
    | nil => exact fun _ => rfl
    | @cons route outcome rest outcomes first _ ih =>
        intro order
        rw [routeSaves_cons, List.map_append, List.map_append, ← ih]
        cases first with
        | unreadable => rfl
        | uncommented => rfl
        | rendered => rfl
  rw [pass.runs.apiPass_logged, pass.index, routeDrafts, List.map_append,
    ← units]
  rfl

variable (pass' : CalmPass space' config baseUrl sources seen' routes state'
    outcomes' final')

include pass'

theorem CalmPass.report_eq :
    (apiPass space config routes state).report =
      (apiPass space' config routes state').report := by
  have twins := twins_of_calm pass.calm pass'.calm
  rw [pass.apiPass_eq, pass'.apiPass_eq]
  simp only [routeEntries, routeResults_congr config routes twins]

theorem CalmPass.findings_eq :
    (apiPass space config routes state).findings =
      (apiPass space' config routes state').findings := by
  have twins := twins_of_calm pass.calm pass'.calm
  rw [pass.apiPass_eq, pass'.apiPass_eq]
  simp only [routeEntries, routeResults_congr config routes twins,
    zipWith_findings_congr config routes twins]

theorem CalmPass.alike {touched : String → Prop}
    (agree : ∀ pages pages', seen pages → seen' pages' →
      ∀ key, ¬ touched key → Assoc.get? key pages = Assoc.get? key pages') :
    List.Forall₂ (PageDraft.Alike config touched)
      (routeDrafts config routes outcomes)
      (routeDrafts config routes outcomes') := by
  have twins := twins_of_calm pass.calm pass'.calm
  rw [routeDrafts, routeDrafts, routeEntries, routeEntries,
    routeResults_congr config routes twins]
  refine List.rel_append ?_ (.cons (.refl _) .nil)
  rw [List.forall₂_map_left_iff, List.forall₂_map_right_iff]
  exact routeSaves_alike agree routes firstUnitOrder twins

end Pairs

end TagDoc
