import TagDoc.Page.Route
import TagDoc.Pass.Report

/-!
# The pass over routes

Every route of the registry gets a page made of its handler's doc comment and
its declared parameters; an index page lists the documented routes.
-/

namespace TagDoc

variable {σ : Type}

/-- The page of a route from its documentation, against the given page
index. -/
def routePage (config : Config) (pages : PageIndex) (unit : String)
    (doc : DocComment) (route : Route) : Diagnosed Page := do
  let resolved ← resolveParams unit doc route.params
  Page.ofRoute config pages unit doc route resolved

def routeEntry (route : Route) (doc : DocComment) (url : String) : IndexEntry :=
  ⟨route.path, doc.group.getD defaultGroup, doc.description, url⟩

/-- Render and save the page of a route whose comment was read. -/
def publishRoute (space : Workspace σ) (config : Config) (unit : String)
    (doc : Diagnosed DocComment) (route : Route) (order : Nat) (state : σ) :
    UnitRun σ :=
  match space.pages state with
  | (.error failure, state) =>
      ⟨none, doc.findings ++ [.routeFailure route.path failure], state⟩
  | (.ok pages, state) =>
      let page := routePage config pages unit doc.value route
      let findings := doc.findings ++ page.findings
      match space.save
          ⟨config.api.docPath, route.path, page.value.markdown, order⟩ state with
      | (.error failure, state) =>
          ⟨none, findings ++ [.routeFailure route.path failure], state⟩
      | (.ok url, state) => ⟨some (routeEntry route doc.value url), findings, state⟩

def documentRoute (space : Workspace σ) (config : Config) (route : Route)
    (order : Nat) (state : σ) : UnitRun σ :=
  let unit := handlerPath config.api.sourceRoot route.key
    config.api.sourceExtension
  match space.readSource unit state with
  | .error failure => ⟨none, [.routeFailure route.path failure], state⟩
  | .ok source =>
      match DocComment.ofSource? unit source with
      | none => ⟨none, [.missingComment unit], state⟩
      | some doc => publishRoute space config unit doc route order state

def apiPass (space : Workspace σ) (config : Config) (routes : List Route)
    (state : σ) : PassRun σ BuildReport :=
  finishPass space "接口" config.api.groups config.api.indexPath
    config.api.indexName (.routeIndexFailure config.api.indexName)
    (runUnits (documentRoute space config) routes firstUnitOrder state)

end TagDoc
