import TagDoc.Proofs.Annotations
import TagDoc.Proofs.PageLayout

/-!
# What the section of parameters contains

A declared parameter adds a row to the table of its route, and the details of
its resolved type below the table.  Rows come after those of the implicit
parameters, and rows and details alike in the order of declaration:
`parameterSection_ofRoute`.
-/

namespace TagDoc

/-- The row of an implicit parameter: it is required and has no default. -/
def ImplicitParam.shown (param : ImplicitParam) : RoutePage.ParameterRow where
  name := param.name
  type := param.type
  optional := false
  default := "-"
  description := param.description

/-- A detail section as it is written: its heading, the table of its properties
and an empty line. -/
def DetailSection.block (detail : DetailSection) : String :=
  "#### " ++ detail.name ++ "对象详解\n\n" ++ detail.table.markdown ++ "\n"

theorem DetailSection.markdown_eq_block (detail : DetailSection) :
    detail.markdown = detail.block := by
  rw [markdown_eq, heading, title, block]
  simp only [String.append_assoc]
  rfl

namespace RoutePage

/-- What a declared parameter adds to the section. -/
structure Contribution where
  row : ParameterRow
  details : List DetailSection
deriving DecidableEq, Repr

/-- A parameter adds what its schema, its resolved type and its annotation
say.  A type that was not resolved is shown as any type. -/
structure Contributes (doc : DocComment) (resolved : Assoc ResolvedType)
    (param : String × ParamSchema) (added : Contribution) : Prop where
  name : added.row.name = param.1
  typed : ∀ type, Assoc.get? param.1 resolved = some type →
    added.row.type = type.canonical ∧ added.details = type.details
  untyped : Assoc.get? param.1 resolved = none →
    added.row.type = "any" ∧ added.details = []
  optional : added.row.optional = true ↔
    param.2.presence.optional = true ∨ param.2.presence.default.isSome = true
  defaulted : ∀ value, param.2.presence.default = some value →
    added.row.default = value.compact
  undefaulted : param.2.presence.default = none → added.row.default = "-"
  documented : ∀ text, ParamTree.text? [param.1] doc.params = some text →
    added.row.description = text
  undocumented : ParamTree.text? [param.1] doc.params = none →
    added.row.description = missingParameterText

/-- Without details nothing stands below the table.  Otherwise it is a blank
line and the blocks of the details, without the white space at their end. -/
structure StandsBelow (details : List DetailSection) (below : String) :
    Prop where
  absent : details = [] → below = ""
  present : details ≠ [] → ∃ text,
    String.join (details.map DetailSection.block) = text ++ "\n\n" ∧
      text ≠ "" ∧ Text.EndsSolid text.toList ∧ below = "\n" ++ text ++ "\n"

/-! ## One parameter -/

def contribution (config : Config) (unit : String) (doc : DocComment)
    (resolved : Assoc ResolvedType) (param : String × ParamSchema) :
    Contribution where
  row := (declaredRow config unit doc resolved param.1 param.2).value
  details := ((Assoc.get? param.1 resolved).map ResolvedType.details).getD []

section Parameters

variable (config : Config) (unit : String) (doc : DocComment)
  (resolved : Assoc ResolvedType)

theorem contributes_contribution (param : String × ParamSchema) :
    Contributes doc resolved param
      (contribution config unit doc resolved param) := by
  obtain ⟨name, schema⟩ := param
  unfold contribution
  rw [value_declaredRow]
  have text : (ParamTree.get? name doc.params).bind ParamNode.text? =
      ParamTree.text? [name] doc.params := rfl
  rw [text]
  constructor
  · rfl
  · intro type found
    simp [found]
  · intro missing
    simp [missing]
  · simp [ParamSchema.isOptional]
  · intro value given
    simp only at given
    simp [ParamSchema.defaultText, given]
  · intro absent
    simp only at absent
    simp [ParamSchema.defaultText, absent]
  · intro text found
    simp only at found
    simp [found]
  · intro missing
    simp only at missing
    simp [missing]

/-- What a parameter adds is determined. -/
theorem Contributes.eq_contribution {param : String × ParamSchema}
    {added : Contribution}
    (contributes : Contributes doc resolved param added) :
    added = contribution config unit doc resolved param := by
  have own := contributes_contribution config unit doc resolved param
  generalize contribution config unit doc resolved param = other at own
  obtain ⟨⟨name, type, optional, default, text⟩, details⟩ := added
  obtain ⟨⟨_, otherType, _, otherDefault, otherText⟩, otherDetails⟩ := other
  obtain rfl := contributes.name.trans own.name.symm
  have marked : optional = _ := Bool.eq_iff_iff.mpr
    (contributes.optional.trans own.optional.symm)
  subst marked
  have typed : type = otherType ∧ details = otherDetails := by
    cases found : Assoc.get? param.1 resolved with
    | none =>
        have first := contributes.untyped found
        have second := own.untyped found
        exact ⟨first.1.trans second.1.symm, first.2.trans second.2.symm⟩
    | some resolvedType =>
        have first := contributes.typed resolvedType found
        have second := own.typed resolvedType found
        exact ⟨first.1.trans second.1.symm, first.2.trans second.2.symm⟩
  have defaulted : default = otherDefault := by
    cases given : param.2.presence.default with
    | none =>
        exact (contributes.undefaulted given).trans
          (own.undefaulted given).symm
    | some value =>
        exact (contributes.defaulted value given).trans
          (own.defaulted value given).symm
  have described : text = otherText := by
    cases found : ParamTree.text? [param.1] doc.params with
    | none =>
        exact (contributes.undocumented found).trans
          (own.undocumented found).symm
    | some given =>
        exact (contributes.documented given found).trans
          (own.documented given found).symm
  rw [typed.1, typed.2, defaulted, described]

/-! ## All parameters -/

theorem forall₂_contribution (params : Assoc ParamSchema) :
    List.Forall₂ (Contributes doc resolved) params
      (params.map (contribution config unit doc resolved)) := by
  rw [List.forall₂_map_right_iff, List.forall₂_same]
  intro param _
  exact contributes_contribution config unit doc resolved param

theorem value_declaredRows (params : Assoc ParamSchema) :
    (declaredRows config unit doc resolved params).value =
      (params.map (contribution config unit doc resolved)).map
        Contribution.row := by
  induction params with
  | nil => rfl
  | cons param rest ih =>
      simp [declaredRows, contribution, ih]

theorem detailSections_eq (params : Assoc ParamSchema) :
    detailSections resolved params =
      (params.map (contribution config unit doc resolved)).flatMap
        Contribution.details := by
  rw [List.flatMap_map]
  rfl

end Parameters

/-! ## Below the table -/

/-- The text below the table of parameters. -/
def below (details : List DetailSection) : String :=
  if details = [] then ""
  else "\n" ++ Text.trimEndString
    (String.join (details.map DetailSection.markdown)) ++ "\n"

theorem standsBelow_below (details : List DetailSection) :
    StandsBelow details (below details) where
  absent empty := if_pos empty
  present listed := by
    obtain ⟨text, whole, bar⟩ := exists_join_markdown_details listed
    have blocks : details.map DetailSection.block =
        details.map DetailSection.markdown :=
      List.map_congr_left fun detail _ => detail.markdown_eq_block.symm
    refine ⟨text, blocks ▸ whole, ?_, endsSolid_of_bar bar, ?_⟩
    · rintro rfl
      cases bar
    · rw [below, if_neg listed, whole, trimEndString_append_feeds bar]

theorem parameterSection_below (rows : List ParameterRow)
    (details : List DetailSection) :
    parameterSection rows details =
      ⟨2, some "参数", (parameterTable rows).markdown ++ below details⟩ := by
  rw [markdown_parameterTable]
  cases details with
  | nil => simp [parameterSection, below, Section.raw, Section.titled]
  | cons detail rest =>
      simp [parameterSection, below, Section.raw, Section.line,
        Section.titled, String.append_assoc]

theorem map_implicitRow (config : Config) (route : Route) :
    (implicitParams config route).map implicitRow =
      (config.api.implicitParams.filter fun param =>
        param.access ∈ route.access).map ImplicitParam.shown := by
  rw [implicitParams]
  simp only [List.contains_eq_mem]
  rfl

end RoutePage

/-! ## The section on the page -/

/-- The page of a route that declares parameters has a section with the table
of its implicit parameters, as configured, and of its declared ones, each with
what it contributes; the details of all declared parameters stand below. -/
theorem RoutePage.parameterSection_ofRoute (config : Config)
    (pages : PageIndex) (unit : String) (doc : DocComment) {route : Route}
    (resolved : Assoc ResolvedType) (declared : route.params ≠ []) :
    ∃ (added : List Contribution) (below : String),
      List.Forall₂ (Contributes doc resolved) route.params added ∧
        (Page.ofRoute config pages unit doc route resolved).value.Prints "参数"
          ((parameterTable
              ((config.api.implicitParams.filter fun param =>
                    param.access ∈ route.access).map ImplicitParam.shown ++
                added.map Contribution.row)).markdown ++ below) ∧
        StandsBelow (added.flatMap Contribution.details) below ∧
        ∀ (source : String) (annotations : List (String × String)),
          doc.params = (ParamTree.annotateAll source [] annotations).value →
            ∀ name, ParamTree.text? [name] doc.params =
              ParamTree.firstText? [name] annotations := by
  have shown : RoutePart.Shown doc route .parameters := declared
  refine ⟨route.params.map (contribution config unit doc resolved), _,
    forall₂_contribution config unit doc resolved route.params, ?_,
    standsBelow_below _, ?_⟩
  · apply Page.prints_of_section?
    rw [RoutePart.section?_ofRoute_part config pages unit doc route resolved
      .parameters rfl, if_pos shown, RoutePart.content,
      parameterSection_below, value_declaredRows,
      detailSections_eq config unit doc resolved, map_implicitRow]
  · intro source annotations built name
    rw [built]
    exact (ParamTree.records_annotateAll source annotations).text?_eq
      (List.cons_ne_nil name [])

/-- Of two parameters the second has neither a resolved type nor a text. -/
theorem RoutePage.parameterSection_ofRoute_user :
    let user : ParamSchema := .object [("id", .scalar "int" {})] {}
    let page : ParamSchema := .scalar "int" { default := some (.bool true) }
    let route : Route := { params := [("user", user), ("page", page)] }
    let token : ImplicitParam := { name := "token" }
    let config : Config := { api := { implicitParams := [token] } }
    let doc : DocComment :=
      { params := [("user", ⟨some "The buyer.", []⟩)] }
    let details : List DetailSection := [⟨"user", [⟨"id", "int", "Id."⟩]⟩]
    let resolved : Assoc ResolvedType := [("user", ⟨"object", details⟩)]
    route.params ≠ [] ∧
      (Page.ofRoute config [] "user.js" doc route resolved).value.Prints "参数"
        ("| 参数 | 类型 | 是否可选 | 默认值 | 说明 |\n" ++
          "|:-----|:----|:--------|:-------|:-----|\n" ++
          "| token | string | 必填 | - |  |\n" ++
          "| user | object | 必填 | - | The buyer. |\n" ++
          "| page | any | 可选 | true | 该参数缺少注释，请联系开发者补充 |\n" ++
          "\n#### user对象详解\n\n" ++
          "| 属性 | 类型 | 说明 |\n|:----|:-----|:-----|\n" ++
          "| id | int | Id. |\n") := by
  intro user page route token config doc details resolved
  have declared : route.params ≠ [] := List.cons_ne_nil _ _
  obtain ⟨added, below, contributes, shown, stands, _⟩ :=
    parameterSection_ofRoute config [] "user.js" doc resolved declared
  have rows : added =
      [⟨⟨"user", "object", false, "-", "The buyer."⟩, details⟩,
        ⟨⟨"page", "any", true, "true", missingParameterText⟩, []⟩] := by
    obtain ⟨first, rest, one, others, rfl⟩ :=
      List.forall₂_cons_left_iff.mp contributes
    obtain ⟨second, behind, two, last, rfl⟩ :=
      List.forall₂_cons_left_iff.mp others
    obtain rfl := List.forall₂_nil_left_iff.mp last
    rw [one.eq_contribution config "user.js", two.eq_contribution config
      "user.js"]
    rfl
  subst rows
  obtain ⟨text, whole, _, _, rfl⟩ := stands.present (List.cons_ne_nil _ _)
  have spelled : text = "#### user对象详解\n\n" ++
      "| 属性 | 类型 | 说明 |\n|:----|:-----|:-----|\n| id | int | Id. |" :=
    (String.append_left_inj "\n\n").mp (whole.symm.trans (by decide +kernel))
  subst spelled
  refine ⟨declared, ?_⟩
  convert shown using 1
  decide +kernel

end TagDoc
