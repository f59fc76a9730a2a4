import Mathlib.Data.List.Basic
import TagDoc.Proofs.Collector
import TagDoc.Proofs.RouteRuns

/-!
# The account of a pass over routes

A logged workspace keeps every save that a pass asks for, with its answer.  The
log, the report and the findings of a pass over routes are all read off the
outcomes of its routes, whatever the workspace refuses:
`apiPass_accounts`.
-/

namespace TagDoc

variable {σ : Type}

/-- A save that was asked for, and the answer. -/
structure SaveCall where
  draft : PageDraft
  saved : Except Failure String

/-- The workspace that keeps a log of saves beside its state. -/
def Workspace.logged (space : Workspace σ) :
    Workspace (σ × List SaveCall) where
  readSource path := fun (state, _) => space.readSource path state
  pages := fun (state, log) =>
    let (answer, state) := space.pages state
    (answer, (state, log))
  save draft := fun (state, log) =>
    let (saved, state) := space.save draft state
    (saved, (state, log ++ [⟨draft, saved⟩]))

theorem pages_logged (space : Workspace σ) (state : σ)
    (log : List SaveCall) :
    space.logged.pages (state, log) =
      ((space.pages state).1, ((space.pages state).2, log)) := rfl

theorem save_logged (space : Workspace σ) (draft : PageDraft) (state : σ)
    (log : List SaveCall) :
    space.logged.save draft (state, log) =
      ((space.save draft state).1, ((space.save draft state).2,
        log ++ [⟨draft, (space.save draft state).1⟩])) := rfl

/-- The save that documenting a route asks for, if it comes to that. -/
def RouteOutcome.save? (config : Config) (route : Route) (order : Nat) :
    RouteOutcome → Option SaveCall
  | .rendered doc pages saved =>
      some ⟨routeDraft config route order doc.value pages, saved⟩
  | .unreadable _ | .uncommented | .offline _ _ => none

/-- The saves for routes with the given outcomes, the first of which has the
given display order. -/
def routeSaves (config : Config) (routes : List Route) (order : Nat)
    (outcomes : List RouteOutcome) : List SaveCall :=
  ((routes.zip outcomes).zipIdx order).filterMap fun ((route, outcome), order) =>
    outcome.save? config route order

theorem routeSaves_cons (config : Config) (route : Route) (rest : List Route)
    (order : Nat) (outcome : RouteOutcome) (outcomes : List RouteOutcome) :
    routeSaves config (route :: rest) order (outcome :: outcomes) =
      (outcome.save? config route order).toList ++
        routeSaves config rest (order + 1) outcomes := by
  cases call : outcome.save? config route order with
  | none => simp [routeSaves, call]
  | some made => simp [routeSaves, call]

/-- A route and how documenting it ended. -/
abbrev DocumentedRoute := Route × RouteOutcome

namespace DocumentedRoute

/-- The index entry of a route whose page was saved: its path, its own group or
the default one, its own description and the URL of the page. -/
def listed? (documented : DocumentedRoute) : Option IndexEntry :=
  match documented.2 with
  | .rendered doc _ (.ok url) =>
      some
        { name := documented.1.path
          group := doc.value.group.getD defaultGroup
          description := doc.value.description
          url }
  | .rendered _ _ (.error _) | .unreadable _ | .uncommented | .offline _ _ =>
      none

/-- The error about a route that could not be documented. -/
def failure? (config : Config) (documented : DocumentedRoute) :
    Option Diagnostic :=
  match documented.2 with
  | .uncommented =>
      some ⟨.error,
        "* handler has no doc comment: " ++ handlerUnit config documented.1⟩
  | .unreadable failure | .offline _ failure
  | .rendered _ _ (.error failure) =>
      some ⟨.error,
        "* failed to document " ++ documented.1.path ++ ": " ++
          failure.message⟩
  | .rendered _ _ (.ok _) => none

theorem valueOf?_result (config : Config) (documented : DocumentedRoute) :
    valueOf? (documented.2.result config documented.1) =
      documented.listed? := by
  obtain ⟨route, outcome⟩ := documented
  cases outcome with
  | unreadable failure => rfl
  | uncommented => rfl
  | offline doc failure => rfl
  | rendered doc pages saved =>
      cases saved with
      | error failure => rfl
      | ok url => rfl

theorem errorOf?_result (config : Config) (documented : DocumentedRoute) :
    (errorOf? (documented.2.result config documented.1)).map
        Finding.diagnostic =
      documented.failure? config := by
  obtain ⟨route, outcome⟩ := documented
  cases outcome with
  | unreadable failure => rfl
  | uncommented => rfl
  | offline doc failure => rfl
  | rendered doc pages saved =>
      cases saved with
      | error failure => rfl
      | ok url => rfl

theorem listed?_eq_none_iff (config : Config) (documented : DocumentedRoute) :
    documented.listed? = none ↔ (documented.failure? config).isSome := by
  rw [← valueOf?_result config, ← errorOf?_result config]
  cases documented.2.result config documented.1 with
  | error finding => simp
  | ok entry => simp

end DocumentedRoute

theorem routeResults_eq (config : Config) (routes : List Route)
    (outcomes : List RouteOutcome) :
    routeResults config routes outcomes =
      (routes.zip outcomes).map fun documented : DocumentedRoute =>
        documented.2.result config documented.1 := by
  rw [routeResults, ← List.map_uncurry_zip_eq_zipWith]
  rfl

theorem findings_routeUnits (config : Config) (routes : List Route)
    (outcomes : List RouteOutcome) (after : σ) :
    (routeUnits config routes outcomes after).findings =
      (routes.zip outcomes).flatMap fun documented : DocumentedRoute =>
        documented.2.findings config documented.1 := by
  rw [List.flatMap_def]
  exact congrArg List.flatten List.map_uncurry_zip_eq_zipWith.symm

theorem values_routeResults (config : Config) (routes : List Route)
    (outcomes : List RouteOutcome) :
    (routeResults config routes outcomes).filterMap valueOf? =
      (routes.zip outcomes).filterMap DocumentedRoute.listed? := by
  rw [routeResults_eq, List.filterMap_map]
  exact List.filterMap_congr fun documented _ =>
    documented.valueOf?_result config

theorem errors_routeResults (config : Config) (routes : List Route)
    (outcomes : List RouteOutcome) :
    ((routeResults config routes outcomes).filterMap errorOf?).map
        Finding.diagnostic =
      (routes.zip outcomes).filterMap
        (DocumentedRoute.failure? config) := by
  rw [routeResults_eq, List.filterMap_map, List.map_filterMap]
  exact List.filterMap_congr fun documented _ =>
    documented.errorOf?_result config

/-- Whether a finding says that a route could not be documented. -/
def Finding.isUnitFailure : Finding → Bool
  | .missingComment _ | .routeFailure .. => true
  | _ => false

section Runs

variable {space : Workspace σ} {config : Config}

theorem RouteRun.logged {route : Route} {order : Nat} {state after : σ}
    {outcome : RouteOutcome}
    (run : RouteRun space config route order state outcome after)
    (log : List SaveCall) :
    RouteRun space.logged config route order (state, log) outcome
      (after, log ++ (outcome.save? config route order).toList) := by
  cases run with
  | unreadable read =>
      rw [RouteOutcome.save?, Option.toList_none, List.append_nil]
      exact .unreadable read
  | uncommented read block =>
      rw [RouteOutcome.save?, Option.toList_none, List.append_nil]
      exact .uncommented read block
  | offline read block asked =>
      rw [RouteOutcome.save?, Option.toList_none, List.append_nil]
      exact .offline read block (by rw [pages_logged, asked])
  | rendered read block asked handed =>
      exact .rendered read block (by rw [pages_logged, asked])
        (by rw [save_logged, handed]; rfl)

theorem RouteRuns.logged {routes : List Route} {order : Nat}
    {state after : σ} {outcomes : List RouteOutcome}
    (runs : RouteRuns space config routes order state outcomes after)
    (log : List SaveCall) :
    RouteRuns space.logged config routes order (state, log) outcomes
      (after, log ++ routeSaves config routes order outcomes) := by
  induction runs generalizing log with
  | nil =>
      rw [routeSaves, List.zip_nil_left, List.zipIdx_nil, List.filterMap_nil,
        List.append_nil]
      exact .nil
  | @cons route rest order state middle after outcome outcomes first _ ih =>
      rw [routeSaves_cons, ← List.append_assoc]
      exact .cons (first.logged log) (ih _)

/-- The remarks about a route never say that it could not be documented. -/
theorem RouteRun.isUnitFailure_remarks {route : Route} {order : Nat}
    {state after : σ} {outcome : RouteOutcome}
    (run : RouteRun space config route order state outcome after)
    {finding : Finding} (member : finding ∈ outcome.remarks config route) :
    finding.isUnitFailure = false := by
  cases run with
  | unreadable _ => simp [RouteOutcome.remarks] at member
  | uncommented _ _ => simp [RouteOutcome.remarks] at member
  | offline _ block _ =>
      obtain ⟨path, rfl | rfl⟩ := mem_findings_ofSource? block member
      · rfl
      · rfl
  | rendered _ block _ _ =>
      rcases List.mem_append.mp member with comment | page
      · obtain ⟨path, rfl | rfl⟩ := mem_findings_ofSource? block comment
        · rfl
        · rfl
      · rcases mem_findings_routePage page with
          ⟨path, rfl | rfl⟩ | ⟨name, rfl | rfl⟩ | rfl | ⟨reference, rfl⟩
        · rfl
        · rfl
        · rfl
        · rfl
        · rfl
        · rfl

theorem RouteOutcome.isUnitFailure_result {route : Route}
    {outcome : RouteOutcome} {finding : Finding}
    (failed : errorOf? (outcome.result config route) = some finding) :
    finding.isUnitFailure = true := by
  cases outcome with
  | unreadable failure =>
      cases failed
      rfl
  | uncommented =>
      cases failed
      rfl
  | offline doc failure =>
      cases failed
      rfl
  | rendered doc pages saved =>
      cases saved with
      | error failure =>
          cases failed
          rfl
      | ok url => cases failed

/-- A route leaves one failure if it could not be documented, and else none. -/
theorem RouteRun.filter_findings {route : Route} {order : Nat}
    {state after : σ} {outcome : RouteOutcome}
    (run : RouteRun space config route order state outcome after) :
    (outcome.findings config route).filter Finding.isUnitFailure =
      (errorOf? (outcome.result config route)).toList := by
  have remarks : (outcome.remarks config route).filter
      Finding.isUnitFailure = [] := by
    apply List.filter_eq_nil_iff.mpr
    intro finding member
    simp [run.isUnitFailure_remarks member]
  rw [RouteOutcome.findings, List.filter_append, remarks, List.nil_append]
  cases failed : errorOf? (outcome.result config route) with
  | none => rfl
  | some finding => simp [RouteOutcome.isUnitFailure_result failed]

theorem RouteRuns.filter_findings {routes : List Route} {order : Nat}
    {state after : σ} {outcomes : List RouteOutcome}
    (runs : RouteRuns space config routes order state outcomes after)
    {documented : DocumentedRoute}
    (member : documented ∈ routes.zip outcomes) :
    (documented.2.findings config documented.1).filter Finding.isUnitFailure =
      (errorOf? (documented.2.result config documented.1)).toList := by
  induction runs with
  | nil => cases member
  | cons first _ ih =>
      rcases List.mem_cons.mp member with rfl | later
      · exact first.filter_findings
      · exact ih later

end Runs

/-- What a pass over routes with the given outcomes gives. -/
def accountOf (space : Workspace σ) (config : Config) (routes : List Route)
    (outcomes : List RouteOutcome) (final : σ) : PassRun σ BuildReport :=
  let units := routeUnits config routes outcomes final
  let listing := Page.ofIndex "接口" config.api.groups units.entries
  let saved := space.save
    ⟨config.api.indexPath, config.api.indexName, listing.value.markdown, 1⟩
    final
  { report := ⟨listing.value.markdown, units.entries, units.failed⟩
    findings := units.findings ++ listing.findings ++
      (errorOf? saved.1).toList.map (.routeIndexFailure config.api.indexName)
    state := saved.2 }

theorem RouteRuns.apiPass_eq {space : Workspace σ} {config : Config}
    {routes : List Route} {state final : σ} {outcomes : List RouteOutcome}
    (runs : RouteRuns space config routes 2 state outcomes final) :
    apiPass space config routes state =
      accountOf space config routes outcomes final := by
  rw [apiPass, firstUnitOrder, runs.runUnits_eq, finishPass_eq]
  rfl

theorem isUnitFailure_ofIndex {nameHeader : String} {groups : List String}
    {entries : List IndexEntry} {finding : Finding}
    (member : finding ∈ (Page.ofIndex nameHeader groups entries).findings) :
    finding.isUnitFailure = false := by
  rcases mem_findings_ofIndex member with ⟨_, _, rfl⟩ | ⟨_, _, rfl⟩
  · rfl
  · rfl

theorem RouteRuns.filter_accountOf {space : Workspace σ} {config : Config}
    {routes : List Route} {order : Nat} {state final : σ}
    {outcomes : List RouteOutcome}
    (runs : RouteRuns space config routes order state outcomes final) :
    (accountOf space config routes outcomes final).findings.filter
        Finding.isUnitFailure =
      (routeResults config routes outcomes).filterMap errorOf? := by
  have units : (routeUnits config routes outcomes final).findings.filter
      Finding.isUnitFailure =
        (routeResults config routes outcomes).filterMap errorOf? := by
    rw [findings_routeUnits, List.filter_flatMap, routeResults_eq,
      List.filterMap_map, List.filterMap_eq_flatMap_toList]
    exact List.flatMap_congr fun documented member =>
      runs.filter_findings member
  have listing : (Page.ofIndex "接口" config.api.groups
      (routeUnits config routes outcomes final).entries).findings.filter
        Finding.isUnitFailure = [] := by
    apply List.filter_eq_nil_iff.mpr
    intro finding member
    simp [isUnitFailure_ofIndex member]
  simp only [accountOf, List.filter_append, units, listing, List.append_nil]
  simp [List.filter_map, Function.comp_def, Finding.isUnitFailure]

theorem length_results (config : Config) (routes : List Route)
    (outcomes : List RouteOutcome)
    (each : outcomes.length = routes.length) :
    ((routeResults config routes outcomes).filterMap valueOf?).length +
        ((routeResults config routes outcomes).filterMap errorOf?).length =
      routes.length := by
  rw [length_values_add_errors, routeResults, List.length_zipWith, each,
    Nat.min_self]

/-- The account of a pass over routes, whatever the workspace refuses.  The
saves are those of the routes in order, with the display orders from 2 on, and
then that of the index page.  The report has the entries of the routes whose
pages were saved; every other route left one failure and was counted, and a
refused index page adds one error and no more. -/
theorem apiPass_accounts (space : Workspace σ) (config : Config)
    (routes : List Route) (state : σ) :
    ∃ outcomes final,
      RouteRuns space config routes 2 state outcomes final ∧
      let run := apiPass space config routes state
      let logged := apiPass space.logged config routes (state, [])
      let units : List DocumentedRoute := routes.zip outcomes
      let listing := Page.ofIndex "接口" config.api.groups run.report.entries
      let index : PageDraft :=
        ⟨config.api.indexPath, config.api.indexName, run.report.index, 1⟩
      let refusal? := errorOf? (space.save index final).1
      units.map Prod.fst = routes ∧
      logged.report = run.report ∧ logged.findings = run.findings ∧
      logged.state =
        (run.state,
          routeSaves config routes 2 outcomes ++
            [⟨index, (space.save index final).1⟩]) ∧
      run.report.entries = units.filterMap DocumentedRoute.listed? ∧
      run.report.index = listing.value.markdown ∧
      run.report.failed =
        (units.filterMap (DocumentedRoute.failure? config)).length ∧
      run.report.entries.length + run.report.failed = routes.length ∧
      (∀ documented ∈ units,
        ((documented.2.findings config documented.1).filter
            Finding.isUnitFailure).map Finding.diagnostic =
          (documented.failure? config).toList ∧
        (documented.listed? = none ↔ (documented.failure? config).isSome)) ∧
      (run.findings.filter Finding.isUnitFailure).map Finding.diagnostic =
        units.filterMap (DocumentedRoute.failure? config) ∧
      run.findings.map Finding.diagnostic =
        (units.flatMap fun documented =>
            documented.2.findings config documented.1).map
            Finding.diagnostic ++
          listing.findings.map Finding.diagnostic ++
          refusal?.toList.map (fun failure => ⟨.error,
            "* failed to save index " ++ config.api.indexName ++ ": " ++
              failure.message⟩) ∧
      ∀ held level,
        (run.collect held).messages level =
          ((run.findings.map Finding.diagnostic).filter fun diagnostic =>
            diagnostic.level = level).map Diagnostic.message := by
  obtain ⟨outcomes, final, runs⟩ :=
    exists_routeRuns space config routes 2 state
  have each := runs.length_eq
  have observed := (runs.logged []).apiPass_eq
  have failures := errors_routeResults config routes outcomes
  refine ⟨outcomes, final, runs, ?_⟩
  dsimp only
  rw [runs.apiPass_eq, observed]
  refine ⟨List.map_fst_zip (Nat.le_of_eq each.symm), rfl, rfl, rfl,
    values_routeResults config routes outcomes, rfl, ?_,
    length_results config routes outcomes each, ?_, ?_, ?_,
    PassRun.messages_collect_diagnostic _⟩
  · rw [← failures, List.length_map]
    rfl
  · intro documented member
    refine ⟨?_, documented.listed?_eq_none_iff config⟩
    rw [runs.filter_findings member, ← documented.errorOf?_result,
      Option.toList_map]
  · rw [runs.filter_accountOf, failures]
  · simp only [accountOf, findings_routeUnits, List.map_append, List.map_map]
    rfl

end TagDoc
