import TagDoc.Command.Run
import TagDoc.Proofs.CalmRoutes

/-!
# What a registry names

A command documents routes or tables, as its registry says.  `Units.pass` is
the pass over either, and a command reads its registry and makes that pass:
`document_eq`.
-/

namespace TagDoc

variable {σ : Type} {space : Workspace σ}

/-- What is documented. -/
inductive Units where
  | routes (routes : List Route)
  | tables (tables : TableRegistry)

/-- The texts of the index pages, one after the other. -/
def indexText (reports : Assoc BuildReport) : String :=
  String.join (reports.map fun (_, report) => report.index)

namespace Units

/-- The pass over units.  Routes have one report, and tables one for each
database. -/
def pass (space : Workspace σ) (config : Config) (units : Units) (state : σ) :
    PassRun σ (Assoc BuildReport) :=
  match units with
  | .routes listed =>
      let run := apiPass space config listed state
      { run with report := [("api", run.report)] }
  | .tables listed => registryPass space config listed state

/-- The units that a registry names. -/
def ofRegistry (source : String → Except Failure String) :
    Registry → Except Failure Units
  | .routes path => do
      let text ← source path
      let listed ← Invocation.registryOfText (Route.registry .text) path text
      .ok (.routes listed)
  | .tables path => do
      let text ← source path
      let listed ←
        Invocation.registryOfText (TableSchema.registry .text) path text
      .ok (.tables listed)

theorem pass_keeps {holds : σ → Prop} (keeps : space.Keeps holds)
    (config : Config) (units : Units) {state : σ} (before : holds state) :
    holds (units.pass space config state).state := by
  cases units with
  | routes listed => exact apiPass_keeps keeps config listed before
  | tables listed => exact registryPass_keeps keeps config listed before

/-- The saves of a pass. -/
def saves (space : Workspace σ) (config : Config) (units : Units)
    (state : σ) : List SaveCall :=
  (units.pass space.logged config (state, [])).state.2

theorem pass_logged (space : Workspace σ) (config : Config) (units : Units)
    (state : σ) :
    let run := units.pass space config state
    units.pass space.logged config (state, []) =
      { report := run.report
        findings := run.findings
        state := (run.state, units.saves space config state) } := by
  intro run
  cases units with
  | routes listed =>
      obtain ⟨outcomes, final, runs⟩ :=
        exists_routeRuns space config listed firstUnitOrder state
      simp only [run, saves, pass, runs.apiPass_logged]
  | tables listed => simp only [run, saves, pass, registryPass_logged]

theorem saves_tables (space : Workspace σ) (config : Config)
    (registry : TableRegistry) (state : σ) :
    (Units.tables registry).saves space config state =
      registryCalls space config registry state := by
  simp only [saves, pass, registryPass_logged, List.nil_append]

theorem saves_routes {config : Config} {baseUrl : Option String}
    {sources : String → Except Failure String} {seen : PageIndex → Prop}
    {listed : List Route} {state final : σ} {outcomes : List RouteOutcome}
    (calm : CalmPass space config baseUrl sources seen listed state outcomes
      final) :
    (Units.routes listed).saves space config state =
      (routeDrafts config listed outcomes).map
        (SaveCall.published baseUrl) := by
  simp only [saves, pass, calm.apiPass_logged, List.nil_append]

end Units

/-! ## Bare routes -/

/-- A route that declares no more than a key, a path and a method. -/
def Route.bare (key path method : String) : Route :=
  { key, path, method }

/-- The key, the path and the method of a bare route. -/
def Route.bare? (route : Route) : Option (String × String × String) :=
  if route.params.isEmpty ∧ route.auth = none ∧ route.rpcAuth = none ∧
      route.ip = false ∧ route.cache = false ∧ route.logger = false then
    some (route.key, route.path, route.method)
  else none

theorem Route.bare?_eq_some {route : Route} {key path method : String} :
    route.bare? = some (key, path, method) ↔ route = bare key path method := by
  obtain ⟨ownKey, ownPath, ownMethod, params, auth, rpcAuth, ip, cache,
    logger⟩ := route
  simp only [bare?, Option.ite_none_right_eq_some, bare, Option.some.injEq,
    Prod.mk.injEq, Route.mk.injEq, List.isEmpty_iff]
  tauto

/-- Whether bare routes were decoded can be computed. -/
theorem Route.ok_bare {answer : Except Failure (List Route)}
    {named : List (String × String × String)}
    (decoded : answer.toOption.map (List.map bare?) = some (named.map some)) :
    answer = .ok (named.map fun (key, path, method) => bare key path method) := by
  cases answer with
  | error failure => cases decoded
  | ok routes =>
      congr 1
      have same : routes.map bare? = named.map some := Option.some.inj decoded
      clear decoded
      induction routes generalizing named with
      | nil =>
          rw [List.map_nil] at same
          rw [List.map_eq_nil_iff.mp same.symm, List.map_nil]
      | cons route rest ih =>
          cases named with
          | nil => cases same
          | cons first others =>
              obtain ⟨key, path, method⟩ := first
              obtain ⟨here, later⟩ := List.cons.inj same
              rw [bare?_eq_some.mp here, List.map_cons, ← ih later]

theorem Invocation.document_eq {config : Config} {registry : Registry}
    {state : σ} {units : Units}
    (read : Units.ofRegistry (fun path => space.readSource path state)
      registry = .ok units) :
    let run := units.pass space config state
    document space config registry state =
      .ok { run with report := indexText run.report } := by
  cases registry with
  | routes path =>
      obtain ⟨text, found, decoded⟩ := bind_eq_ok.mp read
      obtain ⟨listed, named, made⟩ := bind_eq_ok.mp decoded
      cases made
      simp only [document, readRegistry, found, named, bind, Except.bind,
        Units.pass, indexText, List.map_cons, List.map_nil, String.join_cons,
        String.join_nil, String.append_empty]
  | tables path =>
      obtain ⟨text, found, decoded⟩ := bind_eq_ok.mp read
      obtain ⟨listed, named, made⟩ := bind_eq_ok.mp decoded
      cases made
      simp only [document, readRegistry, found, named, bind, Except.bind,
        Units.pass, indexText]

end TagDoc
