import TagDoc.Proofs.Collector
import TagDoc.Proofs.PageTables
import TagDoc.Proofs.TableLinks

/-!
# The layout of route pages

A route page is made of parts in a fixed order.  Which parts it has depends on
the documentation and on the declared parameters alone, and each part makes one
section under a heading of its own.  The same data fix what is reported about
the page, in order: `Page.ofRoute_layout`.
-/

namespace TagDoc

/-! ## Sections on pages -/

/-- A page has a section of the second level, and its text has the heading and
the body of the section. -/
structure Page.Prints (page : Page) (title body : String) : Prop where
  found : page.section? title = some ⟨2, some title, body⟩
  printed : ∃ before after, page.markdown =
    before ++ ("## " ++ title ++ "\n\n" ++ body ++ "\n") ++ after

theorem Page.prints_of_section? {page : Page} {title body : String}
    (found : page.section? title = some ⟨2, some title, body⟩) :
    page.Prints title body := by
  refine ⟨found, ?_⟩
  obtain ⟨before, after, split⟩ :=
    List.append_of_mem (List.mem_of_find?_eq_some found)
  have heading : Section.markdown ⟨2, some title, body⟩ =
      "## " ++ title ++ "\n\n" ++ body ++ "\n" := rfl
  refine ⟨String.join (before.map Section.markdown),
    String.join (after.map Section.markdown), ?_⟩
  rw [Page.markdown, split, List.map_append, String.join_append,
    List.map_cons, String.join_cons, heading]
  simp only [String.append_assoc]

/-! ## Parts -/

/-- A part of a route page. -/
inductive RoutePart where
  | description
  | baseInfo
  | parameters
  | returns
  | notes
  | tables
  | todos
deriving DecidableEq, Repr

namespace RoutePart

open RoutePage

/-- All parts, in the order of the page. -/
def order : List RoutePart :=
  [.description, .baseInfo, .parameters, .returns, .notes, .tables, .todos]

/-- The heading of a part; the description stands without one. -/
def title : RoutePart → Option String
  | .description => none
  | .baseInfo => some "基本信息"
  | .parameters => some "参数"
  | .returns => some "返回结果"
  | .notes => some "补充说明"
  | .tables => some "操作的数据表"
  | .todos => some "未完成事项"

/-- Whether the page of a route has a part. -/
def Shown (doc : DocComment) (route : Route) : RoutePart → Prop
  | .description => doc.description ≠ ""
  | .baseInfo => True
  | .parameters => route.params ≠ []
  | .returns => True
  | .notes => doc.notes ≠ []
  | .tables => doc.tables ≠ []
  | .todos => doc.todos ≠ []

instance (doc : DocComment) (route : Route) : DecidablePred (Shown doc route)
  | .description => inferInstanceAs (Decidable (doc.description ≠ ""))
  | .baseInfo => inferInstanceAs (Decidable True)
  | .parameters => inferInstanceAs (Decidable (route.params ≠ []))
  | .returns => inferInstanceAs (Decidable True)
  | .notes => inferInstanceAs (Decidable (doc.notes ≠ []))
  | .tables => inferInstanceAs (Decidable (doc.tables ≠ []))
  | .todos => inferInstanceAs (Decidable (doc.todos ≠ []))

/-- A line for each text. -/
def linesOf (texts : List String) : String :=
  String.join (texts.map (· ++ "\n"))

/-- The section that a part makes on a page that has it. -/
def content (config : Config) (pages : PageIndex) (unit : String)
    (doc : DocComment) (route : Route) (resolved : Assoc ResolvedType) :
    RoutePart → Section
  | .description => ⟨0, none, doc.description ++ "\n"⟩
  | .baseInfo => RoutePage.baseInfo route
  | .parameters =>
      parameterSection
        ((implicitParams config route).map implicitRow ++
          (declaredRows config unit doc resolved route.params).value)
        (detailSections resolved route.params)
  | .returns => (RoutePage.returns unit doc.returns).value
  | .notes => ⟨2, some "补充说明", linesOf (doc.notes.map ("* " ++ ·))⟩
  | .tables =>
      ⟨2, some "操作的数据表",
        linesOf (tableItems config pages unit doc.tables).value⟩
  | .todos => ⟨2, some "未完成事项", linesOf (doc.todos.map ("* " ++ ·))⟩

theorem title_injective : Function.Injective title := by
  intro first second same
  cases first <;> cases second <;> simp [title] at same ⊢

theorem filter_order (part : RoutePart) :
    order.filter (fun other => other = part) = [part] := by
  cases part <;> rfl

theorem title_returns (unit : String) (entries : List ReturnEntry) :
    (RoutePage.returns unit entries).value.title = some "返回结果" := by
  unfold RoutePage.returns
  split
  · rfl
  · split
    · rfl
    · exact Section.title_lines _ _
  · exact Section.title_lines _ _

section Sections

variable (config : Config) (pages : PageIndex) (unit : String)
  (doc : DocComment) (route : Route) (resolved : Assoc ResolvedType)

theorem title_content (part : RoutePart) :
    (content config pages unit doc route resolved part).title = part.title := by
  cases part with
  | description => rfl
  | baseInfo => exact Section.title_lines _ _
  | parameters => rw [content, parameterSection_eq]; rfl
  | returns => exact title_returns unit doc.returns
  | notes => rfl
  | tables => rfl
  | todos => rfl

/-- What a part adds to the page: its section, or nothing. -/
def sections (part : RoutePart) : List Section :=
  if Shown doc route part then
    [content config pages unit doc route resolved part]
  else []

theorem sections_description :
    (RoutePage.description doc.description).toList =
      sections config pages unit doc route resolved .description := by
  by_cases empty : doc.description = ""
  · simp [RoutePage.description, sections, Shown, empty]
  · simp [RoutePage.description, sections, Shown, content, empty,
      Section.line, Section.raw, Section.untitled]

theorem sections_parameters :
    (RoutePage.parameters config unit doc route resolved).value.toList =
      sections config pages unit doc route resolved .parameters := by
  unfold RoutePage.parameters sections
  cases declared : route.params with
  | nil => simp [Shown, declared]
  | cons param rest => simp [Shown, content, declared]

theorem toList_bulletSection (title : String) (items : List String) :
    (bulletSection title items).toList =
      if items ≠ [] then
        [⟨2, some title, linesOf (items.map ("* " ++ ·))⟩]
      else [] := by
  cases items with
  | nil => rfl
  | cons item rest =>
      simp [bulletSection, Section.lines_eq, Section.titled, linesOf]

theorem sections_notes :
    (bulletSection "补充说明" doc.notes).toList =
      sections config pages unit doc route resolved .notes :=
  toList_bulletSection "补充说明" doc.notes

theorem sections_todos :
    (bulletSection "未完成事项" doc.todos).toList =
      sections config pages unit doc route resolved .todos :=
  toList_bulletSection "未完成事项" doc.todos

theorem sections_tables :
    (RoutePage.tables config pages unit doc.tables).value.toList =
      sections config pages unit doc route resolved .tables := by
  unfold sections
  cases listed : doc.tables with
  | nil => simp [RoutePage.tables, Shown, listed]
  | cons reference rest =>
      simp [RoutePage.tables, Shown, content, listed, Section.lines_eq,
        Section.titled, linesOf]

theorem flatMap_sections (parts : List RoutePart) :
    parts.flatMap (sections config pages unit doc route resolved) =
      (parts.filter (Shown doc route ·)).map
        (content config pages unit doc route resolved) := by
  induction parts with
  | nil => rfl
  | cons part rest ih =>
      by_cases shown : Shown doc route part
      · simp [sections, shown, ih]
      · simp [sections, shown, ih]

/-- The parts of a page stand in order, and those that are not shown are left
out. -/
theorem sections_ofRoute :
    (Page.ofRoute config pages unit doc route resolved).value.sections =
      (order.filter (Shown doc route ·)).map
        (content config pages unit doc route resolved) := by
  rw [← flatMap_sections]
  simp only [Page.ofRoute, Diagnosed.value_bind, Diagnosed.value_pure]
  rw [sections_description config pages unit doc route resolved,
    sections_parameters config pages,
    sections_notes config pages unit doc route resolved,
    sections_tables config pages unit doc route resolved,
    sections_todos config pages unit doc route resolved]
  simp only [order, List.flatMap_cons, List.flatMap_nil, List.append_nil,
    List.append_assoc]
  rfl

theorem filter_title_ofRoute (part : RoutePart) :
    (Page.ofRoute config pages unit doc route resolved).value.sections.filter
        (fun other => other.title = part.title) =
      if Shown doc route part then
        [content config pages unit doc route resolved part]
      else [] := by
  rw [sections_ofRoute, List.filter_map]
  simp only [Function.comp_def, title_content, title_injective.eq_iff]
  rw [List.filter_comm, filter_order, List.filter_singleton]
  by_cases shown : Shown doc route part
  · simp [shown]
  · simp [shown]

theorem section?_ofRoute_part (part : RoutePart) {heading : String}
    (headed : part.title = some heading) :
    (Page.ofRoute config pages unit doc route resolved).value.section?
        heading =
      if Shown doc route part then
        some (content config pages unit doc route resolved part)
      else none := by
  have only := filter_title_ofRoute config pages unit doc route resolved part
  rw [headed] at only
  simp only [Page.section?, beq_eq_decide]
  rw [← List.head?_filter, only]
  split <;> rfl

end Sections

end RoutePart

/-! ## Findings -/

/-- The documentation has a text for a parameter that is not empty. -/
def DocComment.HasText (doc : DocComment) (name : String) : Prop :=
  ∃ node text, ParamTree.get? name doc.params = some node ∧
    node.description = some text ∧ text ≠ ""

theorem DocComment.hasText_iff {doc : DocComment} {name : String} :
    doc.HasText name ↔
      ((ParamTree.get? name doc.params).bind ParamNode.text?).isSome := by
  cases found : ParamTree.get? name doc.params with
  | none => simp [HasText, found]
  | some node =>
      cases described : node.description with
      | none => simp [HasText, found, ParamNode.text?, described]
      | some text => simp [HasText, found, ParamNode.text?, described]

instance (doc : DocComment) : DecidablePred doc.HasText := fun _ =>
  decidable_of_iff _ DocComment.hasText_iff.symm

namespace RoutePage

/-- What is reported about a declared parameter. -/
def parameterFindings (config : Config) (unit : String) (doc : DocComment)
    (name : String) : List Finding :=
  (if name ∈ config.api.specialParamNames then
    [.shadowedParameter name unit]
  else []) ++
    if doc.HasText name then [] else [.undocumentedParameter name unit]

/-- The references that name no table. -/
def malformedTables (doc : DocComment) : List String :=
  doc.tables.filter fun reference =>
    ¬ ∃ database table, NamesTable reference database table

/-- What is reported about a page, in order. -/
def pageFindings (config : Config) (unit : String) (doc : DocComment)
    (route : Route) : List Finding :=
  (Assoc.keys route.params).flatMap (parameterFindings config unit doc) ++
    (if doc.returns = [] then [.undocumentedReturn unit] else []) ++
      (malformedTables doc).map (.malformedTableReference · unit)

section Findings

variable (config : Config) (pages : PageIndex) (unit : String)
  (doc : DocComment) (route : Route) (resolved : Assoc ResolvedType)

theorem findings_declaredRows (params : Assoc ParamSchema) :
    (declaredRows config unit doc resolved params).findings =
      (Assoc.keys params).flatMap (parameterFindings config unit doc) := by
  induction params with
  | nil => rfl
  | cons param rest ih =>
      obtain ⟨name, schema⟩ := param
      have own : (declaredRow config unit doc resolved name schema).findings =
          parameterFindings config unit doc name := by
        rw [findings_declaredRow, parameterFindings]
        simp only [DocComment.hasText_iff, List.contains_iff_mem]
        cases (ParamTree.get? name doc.params).bind ParamNode.text? <;> rfl
      simp [declaredRows, own, ih, Assoc.keys]

theorem findings_parameters :
    (parameters config unit doc route resolved).findings =
      (Assoc.keys route.params).flatMap
        (parameterFindings config unit doc) := by
  rw [← findings_declaredRows config unit doc resolved]
  unfold parameters
  cases route.params with
  | nil => rfl
  | cons param rest => simp

theorem findings_malformedTables :
    (tables config pages unit doc.tables).findings =
      (malformedTables doc).map (.malformedTableReference · unit) := by
  rw [findings_tables_eq, malformedTables]

theorem findings_ofRoute :
    (Page.ofRoute config pages unit doc route resolved).findings =
      pageFindings config unit doc route := by
  simp only [Page.ofRoute, Diagnosed.findings_bind, Diagnosed.findings_pure,
    List.append_nil]
  rw [findings_parameters, findings_returns, findings_malformedTables,
    pageFindings, List.append_assoc]
  simp only [List.isEmpty_iff]

theorem warnings_parameterFindings (name : String) :
    ∀ finding ∈ parameterFindings config unit doc name,
      finding.level = .warning := by
  intro finding member
  rcases List.mem_append.mp member with special | missing
  · split at special
    · rw [List.mem_singleton.mp special]
      rfl
    · cases special
  · split at missing
    · cases missing
    · rw [List.mem_singleton.mp missing]
      rfl

/-- A collector keeps what it held and takes the findings of a page in. -/
theorem record_pageFindings (held : Diagnostics) :
    held.record (pageFindings config unit doc route) =
      { held with
        errors := held.errors ++
          if doc.returns = [] then ["* return value undocumented: " ++ unit]
          else []
        warnings := held.warnings ++
          ((Assoc.keys route.params).flatMap
            (parameterFindings config unit doc)).map Finding.message ++
          (malformedTables doc).map fun reference =>
            "* malformed table reference (" ++ reference ++ "): " ++
              unit } := by
  have params : ∀ finding ∈ (Assoc.keys route.params).flatMap
      (parameterFindings config unit doc), finding.level = .warning := by
    intro finding member
    obtain ⟨name, _, own⟩ := List.mem_flatMap.mp member
    exact warnings_parameterFindings config unit doc name finding own
  have references : ∀ finding ∈
      (malformedTables doc).map (Finding.malformedTableReference · unit),
      finding.level = .warning := by
    intro finding member
    obtain ⟨reference, _, rfl⟩ := List.mem_map.mp member
    rfl
  have missing : ∀ collected : Diagnostics,
      collected.record
          (if doc.returns = [] then [.undocumentedReturn unit] else []) =
        { collected with
          errors := collected.errors ++
            if doc.returns = [] then ["* return value undocumented: " ++ unit]
            else [] } := by
    intro collected
    by_cases undocumented : doc.returns = []
    · rw [if_pos undocumented, if_pos undocumented]
      rfl
    · rw [if_neg undocumented, if_neg undocumented, List.append_nil]
      rfl
  rw [pageFindings, Diagnostics.record_append, Diagnostics.record_append,
    Diagnostics.record_of_warnings _ params, missing,
    Diagnostics.record_of_warnings _ references, List.map_map]
  rfl

end Findings

end RoutePage

/-! ## Sections and findings of a page -/

/-- A route page has the parts that are shown, in order and no other sections;
under the heading of a part there is one section exactly if it is shown.  What
is reported is fixed for each declared parameter, for the returns and for each
table reference, and a collector takes it in in that order. -/
theorem Page.ofRoute_layout (config : Config) (pages : PageIndex)
    (unit : String) (doc : DocComment) (route : Route)
    (resolved : Assoc ResolvedType) :
    let page := Page.ofRoute config pages unit doc route resolved
    let content := RoutePart.content config pages unit doc route resolved
    page.value.sections =
        (RoutePart.order.filter (RoutePart.Shown doc route ·)).map content ∧
      (∀ part : RoutePart,
        page.value.sections.filter (fun other => other.title = part.title) =
          if part.Shown doc route then [content part] else []) ∧
      page.findings = RoutePage.pageFindings config unit doc route ∧
      ∀ held : Diagnostics, held.record page.findings =
        { held with
          errors := held.errors ++
            if doc.returns = [] then ["* return value undocumented: " ++ unit]
            else []
          warnings := held.warnings ++
            ((Assoc.keys route.params).flatMap
              (RoutePage.parameterFindings config unit doc)).map
                Finding.message ++
            (RoutePage.malformedTables doc).map fun reference =>
              "* malformed table reference (" ++ reference ++ "): " ++
                unit } := by
  intro page content
  have findings : page.findings =
      RoutePage.pageFindings config unit doc route :=
    RoutePage.findings_ofRoute config pages unit doc route resolved
  refine ⟨?_, ?_, findings, ?_⟩
  · exact RoutePart.sections_ofRoute config pages unit doc route resolved
  · exact RoutePart.filter_title_ofRoute config pages unit doc route resolved
  · intro held
    rw [findings]
    exact RoutePage.record_pageFindings config unit doc route held

/-- A route without documentation and parameters has two sections. -/
example : RoutePart.order.filter (RoutePart.Shown {} {} ·) =
    [.baseInfo, .returns] := by
  decide

end TagDoc
