import TagDoc.Proofs.PageLayout
import TagDoc.Proofs.Stores

/-!
# Links from one pass to the pages of another

Once a pass over tables reports the page of a table, every later pass over
routes links to it, whatever was saved in between and, on disk, however often
the store was reopened.  The key under which the page was saved is the key that
the reference is looked up by, and its URL depends on nothing else.
-/

namespace TagDoc

variable {σ : Type} {space : Workspace σ} {config : Config}

/-- All route pages that passes over routes make from a state on have a
property; a page is given by its route, the comment, the page index at that
moment and the answer to its save. -/
def EveryRoutePage (space : Workspace σ) (config : Config) (state : σ)
    (holds : Route → Diagnosed DocComment → PageIndex →
      Except Failure String → Prop) : Prop :=
  ∀ routes, ∃ outcomes after,
    RouteRuns space config routes firstUnitOrder state outcomes after ∧
    runUnits (documentRoute space config) routes firstUnitOrder state =
      routeUnits config routes outcomes after ∧
    ∀ route doc pages saved,
      (route, RouteOutcome.rendered doc pages saved) ∈ routes.zip outcomes →
        holds route doc pages saved

/-- The section of tables on a page has a line for every reference, with an item
that shows it.  Without references there is no such section. -/
def ShowsTables (page : Page) (references : List String)
    (shows : String → String → Prop) : Prop :=
  ∃ items, List.Forall₂ shows references items ∧
    if items = [] then page.section? "操作的数据表" = none
    else page.Prints "操作的数据表" (String.join (items.map (· ++ "\n")))

/-- The page of a route shows its table references, each in the given way. -/
def ShowsRouteTables (config : Config) (route : Route)
    (doc : Diagnosed DocComment) (pages : PageIndex)
    (shows : String → String → Prop) : Prop :=
  ShowsTables
    (routePage config pages (handlerUnit config route) doc.value route).value
    doc.value.tables shows

/-- All passes over routes from a state show a reference as the link to a
URL. -/
def RoutePagesLink (space : Workspace σ) (config : Config) (state : σ)
    (reference url : String) : Prop :=
  EveryRoutePage space config state fun route doc pages _ =>
    ShowsRouteTables config route doc pages fun listed item =>
      listed = reference → item = linkItem reference url

/-- What passes over tables report from a state on stays linked. -/
def LinksLast (space : Workspace σ) (changes : σ → σ → Prop)
    (config : Config) (start : σ) : Prop :=
  ∀ before registry database report entry reference later,
    Later space changes start before →
    (database, report) ∈ (registryPass space config registry before).report →
    entry ∈ report.entries →
    NamesTable reference database entry.name →
    Later space changes (registryPass space config registry before).state
      later →
    RoutePagesLink space config later reference entry.url

/-! ## What the pages of a run show -/

theorem showsTables_routePage (config : Config) (pages : PageIndex)
    (unit : String) (doc : DocComment) (route : Route) :
    ShowsTables (routePage config pages unit doc route).value doc.tables
      (ShowsReference config pages) := by
  let items := (RoutePage.tableItems config pages unit doc.tables).value
  have shown : List.Forall₂ (ShowsReference config pages) doc.tables items :=
    RoutePage.showsReference_tableItems config pages unit doc.tables
  have found := RoutePart.section?_ofRoute_part config pages unit doc route
    (resolveParams unit doc route.params).value .tables rfl
  have hidden : items = [] ↔ ¬ RoutePart.Shown doc route .tables := by
    rw [RoutePart.Shown, not_not, ← List.length_eq_zero_iff,
      ← shown.length_eq, List.length_eq_zero_iff]
  refine ⟨items, shown, ?_⟩
  split
  · next empty => exact found.trans (if_neg (hidden.mp empty))
  · next listed =>
      have part := not_not.mp (mt hidden.mpr listed)
      exact Page.prints_of_section? (found.trans (if_pos part))

theorem showsTables_mono {page : Page} {references : List String}
    {shows implied : String → String → Prop}
    (implies : ∀ reference item, shows reference item → implied reference item)
    (shown : ShowsTables page references shows) :
    ShowsTables page references implied := by
  obtain ⟨items, each, found⟩ := shown
  exact ⟨items, each.imp implies, found⟩

theorem item_of_listed {settings : DbConfig} {pages : PageIndex}
    {reference database table url item : String}
    (names : NamesTable reference database table)
    (configured : Assoc.get? database config.db = some settings)
    (listed : Assoc.get? (pageKey settings.path table) pages = some url)
    (shown : ShowsReference config pages reference item) :
    item = linkItem reference url := by
  have links : LinksTo config pages reference url :=
    ⟨database, table, settings, names, configured, listed⟩
  rcases shown with ⟨other, also, rfl⟩ | ⟨unlinked, _⟩
  · have same : other = url := Option.some.inj
      (((RoutePage.linksTo_iff names).mp also).symm.trans
        ((RoutePage.linksTo_iff names).mp links))
    rw [same]
  · exact (unlinked ⟨url, links⟩).elim

/-- Every outcome of a run comes from a run of its own route, in a state that
has what the workspace keeps. -/
theorem RouteRuns.exists_of_mem {holds : σ → Prop} (keeps : space.Keeps holds)
    {routes : List Route} {order : Nat} {state after : σ}
    {outcomes : List RouteOutcome}
    (runs : RouteRuns space config routes order state outcomes after)
    (before : holds state) {route : Route} {outcome : RouteOutcome}
    (member : (route, outcome) ∈ routes.zip outcomes) :
    ∃ order here next, holds here ∧
      RouteRun space config route order here outcome next := by
  induction runs with
  | nil => cases member
  | cons first _ ih =>
      rcases List.mem_cons.mp member with here | later
      · cases here
        exact ⟨_, _, _, before, first⟩
      · exact ih (first.keeps keeps before) later

theorem everyRoutePage_of_keeps {kept : σ → Prop} {state : σ}
    {holds : Route → Diagnosed DocComment → PageIndex →
      Except Failure String → Prop}
    (keeps : space.Keeps kept) (before : kept state)
    (each : ∀ route order here next doc pages saved, kept here →
      RouteRun space config route order here (.rendered doc pages saved) next →
      holds route doc pages saved) :
    EveryRoutePage space config state holds := by
  intro routes
  obtain ⟨outcomes, after, runs⟩ :=
    exists_routeRuns space config routes firstUnitOrder state
  refine ⟨outcomes, after, runs, runs.runUnits_eq, ?_⟩
  intro route doc pages saved member
  obtain ⟨order, here, next, ready, run⟩ :=
    runs.exists_of_mem keeps before member
  exact each route order here next doc pages saved ready run

/-! ## Links that last -/

theorem linksLast_of_publishes {urlOf : String → String} {sound : σ → Prop}
    {listed : String → σ → Prop} {changes : σ → σ → Prop} {start : σ}
    (publishes : space.Publishes urlOf sound listed)
    (soundOutside : ∀ before after, changes before after → sound before →
      sound after)
    (listedOutside : ∀ key before after, changes before after →
      listed key before → listed key after)
    (opened : sound start) : LinksLast space changes config start := by
  intro before registry database report entry reference later earlier reported
    member names afterwards
  have ready : sound before :=
    earlier.keeps publishes.keepsSound soundOutside opened
  obtain ⟨settings, configured, url, listedThen⟩ :=
    registryPass_listed publishes ready reported member
  have soundThen := registryPass_keeps publishes.keepsSound config registry
    ready
  have now := afterwards.keeps
    (publishes.keepsListed (pageKey settings.path entry.name))
    (fun _ _ change held => ⟨soundOutside _ _ change held.1,
      listedOutside _ _ _ change held.2⟩)
    ⟨soundThen, listedThen⟩
  refine everyRoutePage_of_keeps
    (publishes.keepsListed (pageKey settings.path entry.name)) now ?_
  intro route order here next doc pages saved held run
  cases run with
  | rendered _ _ asked _ =>
      have inIndex := publishes.answers _ _ _ _ held.1 held.2 asked
      refine showsTables_mono ?_ (showsTables_routePage ..)
      intro listedReference item shown same
      subst same
      rw [url]
      exact item_of_listed names configured inIndex shown

theorem RouteRun.malformedReferences {route : Route} {order : Nat}
    {state after : σ} {doc : Diagnosed DocComment} {pages : PageIndex}
    {saved : Except Failure String}
    (run : RouteRun space config route order state (.rendered doc pages saved)
      after) :
    ((RouteOutcome.rendered doc pages saved).findings config route).filter
        Finding.isMalformedReference =
      (doc.value.tables.filter fun reference =>
        ¬ ∃ database table, NamesTable reference database table).map
          (.malformedTableReference · (handlerUnit config route)) := by
  cases run with
  | rendered _ block _ _ =>
      have comment : doc.findings.filter Finding.isMalformedReference = [] := by
        rw [List.filter_eq_nil_iff]
        intro finding member
        obtain ⟨path, rfl | rfl⟩ := mem_findings_ofSource? block member <;>
          exact Bool.false_ne_true
      have failure : (errorOf? ((RouteOutcome.rendered doc pages saved).result
          config route)).toList.filter Finding.isMalformedReference = [] := by
        cases saved with
        | error failure => rfl
        | ok url => rfl
      rw [RouteOutcome.findings, RouteOutcome.remarks, List.filter_append,
        List.filter_append, comment, failure, malformedReferences_routePage,
        List.nil_append, List.append_nil]

end TagDoc
