import TagDoc.Proofs.FindingForms
import TagDoc.Proofs.Results

/-!
# How documenting routes goes

Documenting a route ends in one of a few ways, which `RouteRun` describes by
what the workspace answers on the way; `RouteRuns` chains these descriptions
over a registry.  Every pass has such a description, and the description
determines what the pass reports: `RouteRuns.runUnits_eq`.
-/

namespace TagDoc

variable {σ : Type}

/-- The path of a route's handler, which names the route in findings. -/
def handlerUnit (config : Config) (route : Route) : String :=
  handlerPath config.api.sourceRoot route.key config.api.sourceExtension

/-- How documenting a route ends: its source cannot be read, the source has no
doc block, the page index is out of reach, or the page goes to the store, which
answers with a URL or a failure. -/
inductive RouteOutcome where
  | unreadable (failure : Failure)
  | uncommented
  | offline (doc : Diagnosed DocComment) (failure : Failure)
  | rendered (doc : Diagnosed DocComment) (pages : PageIndex)
      (saved : Except Failure String)

/-- The page of a route as it goes to the store. -/
def routeDraft (config : Config) (route : Route) (order : Nat)
    (doc : DocComment) (pages : PageIndex) : PageDraft where
  directory := config.api.docPath
  name := route.path
  content :=
    (routePage config pages (handlerUnit config route) doc route).value.markdown
  order

/-- Documenting a route in a state of the workspace ends with an outcome and
leaves a state. -/
inductive RouteRun (space : Workspace σ) (config : Config) (route : Route)
    (order : Nat) : σ → RouteOutcome → σ → Prop where
  | unreadable {state : σ} {failure : Failure} :
      space.readSource (handlerUnit config route) state = .error failure →
      RouteRun space config route order state (.unreadable failure) state
  | uncommented {state : σ} {source : String} :
      space.readSource (handlerUnit config route) state = .ok source →
      DocComment.ofSource? (handlerUnit config route) source = none →
      RouteRun space config route order state .uncommented state
  | offline {state after : σ} {source : String} {doc : Diagnosed DocComment}
      {failure : Failure} :
      space.readSource (handlerUnit config route) state = .ok source →
      DocComment.ofSource? (handlerUnit config route) source = some doc →
      space.pages state = (.error failure, after) →
      RouteRun space config route order state (.offline doc failure) after
  | rendered {state middle after : σ} {source : String}
      {doc : Diagnosed DocComment} {pages : PageIndex}
      {saved : Except Failure String} :
      space.readSource (handlerUnit config route) state = .ok source →
      DocComment.ofSource? (handlerUnit config route) source = some doc →
      space.pages state = (.ok pages, middle) →
      space.save (routeDraft config route order doc.value pages) middle =
        (saved, after) →
      RouteRun space config route order state (.rendered doc pages saved) after

/-- Documenting routes one after the other, each with the next display
order. -/
inductive RouteRuns (space : Workspace σ) (config : Config) :
    List Route → Nat → σ → List RouteOutcome → σ → Prop where
  | nil {order : Nat} {state : σ} : RouteRuns space config [] order state [] state
  | cons {route : Route} {rest : List Route} {order : Nat}
      {state middle after : σ} {outcome : RouteOutcome}
      {outcomes : List RouteOutcome} :
      RouteRun space config route order state outcome middle →
      RouteRuns space config rest (order + 1) middle outcomes after →
      RouteRuns space config (route :: rest) order state (outcome :: outcomes)
        after

namespace RouteOutcome

/-- The index entry of a documented route, or the finding of the failure. -/
def result (config : Config) (route : Route) :
    RouteOutcome → Except Finding IndexEntry
  | .unreadable failure => .error (.routeFailure route.path failure)
  | .uncommented => .error (.missingComment (handlerUnit config route))
  | .offline _ failure => .error (.routeFailure route.path failure)
  | .rendered _ _ (.error failure) => .error (.routeFailure route.path failure)
  | .rendered doc _ (.ok url) => .ok (routeEntry route doc.value url)

/-- The findings about the comment and the page of a route. -/
def remarks (config : Config) (route : Route) : RouteOutcome → List Finding
  | .unreadable _ | .uncommented => []
  | .offline doc _ => doc.findings
  | .rendered doc pages _ =>
      doc.findings ++
        (routePage config pages (handlerUnit config route) doc.value
          route).findings

end RouteOutcome

/-- All findings about a route, with that of a failure last. -/
def RouteOutcome.findings (config : Config) (route : Route)
    (outcome : RouteOutcome) : List Finding :=
  outcome.remarks config route ++ (errorOf? (outcome.result config route)).toList

/-- The results of routes with the given outcomes. -/
def routeResults (config : Config) (routes : List Route)
    (outcomes : List RouteOutcome) : List (Except Finding IndexEntry) :=
  List.zipWith (fun route outcome => outcome.result config route) routes outcomes

/-- What documenting routes with the given outcomes gives. -/
def routeUnits (config : Config) (routes : List Route)
    (outcomes : List RouteOutcome) (after : σ) : UnitRuns σ where
  entries := (routeResults config routes outcomes).filterMap valueOf?
  failed := ((routeResults config routes outcomes).filterMap errorOf?).length
  findings :=
    (List.zipWith (fun route outcome => outcome.findings config route) routes
      outcomes).flatten
  state := after

section Runs

variable {space : Workspace σ} {config : Config}

theorem exists_routeRun (space : Workspace σ) (config : Config)
    (route : Route) (order : Nat) (state : σ) :
    ∃ outcome after, RouteRun space config route order state outcome after := by
  cases read : space.readSource (handlerUnit config route) state with
  | error failure => exact ⟨_, _, .unreadable read⟩
  | ok source =>
      cases block : DocComment.ofSource? (handlerUnit config route) source with
      | none => exact ⟨_, _, .uncommented read block⟩
      | some doc =>
          cases asked : space.pages state with
          | mk answer middle =>
              cases answer with
              | error failure => exact ⟨_, _, .offline read block asked⟩
              | ok pages => exact ⟨_, _, .rendered read block asked rfl⟩

theorem exists_routeRuns (space : Workspace σ) (config : Config)
    (routes : List Route) (order : Nat) (state : σ) :
    ∃ outcomes after,
      RouteRuns space config routes order state outcomes after := by
  induction routes generalizing order state with
  | nil => exact ⟨[], state, .nil⟩
  | cons route rest ih =>
      obtain ⟨outcome, middle, first⟩ :=
        exists_routeRun space config route order state
      obtain ⟨outcomes, after, others⟩ := ih (order + 1) middle
      exact ⟨outcome :: outcomes, after, .cons first others⟩

/-- The description of a route determines what documenting it gives. -/
theorem RouteRun.documentRoute_eq {route : Route} {order : Nat}
    {state after : σ} {outcome : RouteOutcome}
    (run : RouteRun space config route order state outcome after) :
    documentRoute space config route order state =
      ⟨valueOf? (outcome.result config route), outcome.findings config route,
        after⟩ := by
  cases run with
  | unreadable read =>
      simp only [handlerUnit] at read
      simp only [documentRoute, read]
      rfl
  | uncommented read block =>
      simp only [handlerUnit] at read block
      simp only [documentRoute, read, block]
      rfl
  | offline read block asked =>
      simp only [handlerUnit] at read block
      simp only [documentRoute, publishRoute, read, block, asked]
      rfl
  | @rendered _ _ _ doc pages saved read block asked handed =>
      simp only [handlerUnit, routeDraft] at read block handed
      cases saved with
      | error failure =>
          simp only [documentRoute, publishRoute, read, block, asked, handed]
          rfl
      | ok url =>
          simp only [documentRoute, publishRoute, read, block, asked, handed]
          simp [RouteOutcome.result, RouteOutcome.findings,
            RouteOutcome.remarks, handlerUnit]

theorem RouteRuns.length_eq {routes : List Route} {order : Nat}
    {state after : σ} {outcomes : List RouteOutcome}
    (runs : RouteRuns space config routes order state outcomes after) :
    outcomes.length = routes.length := by
  induction runs with
  | nil => rfl
  | cons _ _ ih => simp [ih]

theorem RouteRuns.runUnits_eq {routes : List Route} {order : Nat}
    {state after : σ} {outcomes : List RouteOutcome}
    (runs : RouteRuns space config routes order state outcomes after) :
    runUnits (documentRoute space config) routes order state =
      routeUnits config routes outcomes after := by
  induction runs with
  | nil => rfl
  | @cons route rest order state middle after outcome outcomes first _ ih =>
      simp only [runUnits, first.documentRoute_eq, ih]
      cases ended : outcome.result config route with
      | error finding =>
          simp [routeUnits, routeResults, ended, List.filterMap_cons,
            Nat.add_comm]
      | ok entry =>
          simp [routeUnits, routeResults, ended, List.filterMap_cons]

end Runs

/-- A pass ends with the index page of its units; only one finding depends on
whether that page is saved. -/
theorem finishPass_eq (space : Workspace σ) (nameHeader : String)
    (groups : List String) (directory name : String)
    (failure : Failure → Finding) (units : UnitRuns σ) :
    let listing := Page.ofIndex nameHeader groups units.entries
    let saved := space.save
      ⟨directory, name, listing.value.markdown, indexOrder⟩ units.state
    finishPass space nameHeader groups directory name failure units =
      { report := ⟨listing.value.markdown, units.entries, units.failed⟩
        findings := units.findings ++ listing.findings ++
          (errorOf? saved.1).toList.map failure
        state := saved.2 } := by
  intro listing saved
  cases answer : saved with
  | mk result after =>
      have handed : space.save
          ⟨directory, name,
            (Page.ofIndex nameHeader groups units.entries).value.markdown,
            indexOrder⟩
          units.state = (result, after) := answer
      cases result with
      | error cause => simp [finishPass, handed, listing]
      | ok url => simp [finishPass, handed, listing]

end TagDoc
