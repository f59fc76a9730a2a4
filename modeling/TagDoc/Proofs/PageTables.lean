import TagDoc.Page.Index
import TagDoc.Page.Table
import TagDoc.Proofs.DetailNames
import TagDoc.Proofs.MarkdownTables

/-!
# The tables on pages

The parameters of a route, the properties of each declared object, the entries
of each group and the columns of a table are listed in tables, with one row
for each item.  Texts go into the rows as they are.
-/

namespace TagDoc

open MarkdownTable (Plain barred)

/-! ## Parameters -/

namespace RoutePage

/-- The texts of a row, from left to right. -/
def ParameterRow.texts (row : ParameterRow) : List String :=
  [row.name, row.type, if row.optional then "可选" else "必填", row.default,
    row.description]

def parameterTable (rows : List ParameterRow) : MarkdownTable where
  padding := " "
  header := ["参数", "类型", "是否可选", "默认值", "说明"]
  delimiters := [":-----", ":----", ":--------", ":-------", ":-----"]
  rows := rows.map ParameterRow.texts

theorem ParameterRow.markdown_eq (row : ParameterRow) :
    row.markdown = barred " " row.texts ++ "\n" := by
  apply String.toList_injective
  simp [ParameterRow.markdown, ParameterRow.texts, barred]

theorem markdown_parameterTable (rows : List ParameterRow) :
    (parameterTable rows).markdown =
      parameterHead ++ String.join (rows.map ParameterRow.markdown) := by
  apply String.toList_injective
  simp [parameterTable, parameterHead, MarkdownTable.markdown,
    MarkdownTable.headerLine, MarkdownTable.delimiterLine,
    ParameterRow.markdown_eq, String.toList_join, List.flatMap_map, barred]

end RoutePage

/-- The texts of a row, from left to right. -/
def PropertyRow.texts (row : PropertyRow) : List String :=
  [row.name, row.type, row.description]

theorem PropertyRow.markdown_eq (row : PropertyRow) :
    row.markdown = barred " " row.texts ++ "\n" := by
  apply String.toList_injective
  simp [PropertyRow.markdown, PropertyRow.texts, barred]

def DetailSection.table (detail : DetailSection) : MarkdownTable where
  padding := " "
  header := ["属性", "类型", "说明"]
  delimiters := [":----", ":-----", ":-----"]
  rows := detail.rows.map PropertyRow.texts

/-- What stands above the table of a detail section. -/
def DetailSection.heading (detail : DetailSection) : String :=
  "#### " ++ detail.title ++ "\n\n"

theorem DetailSection.markdown_eq (detail : DetailSection) :
    detail.markdown = detail.heading ++ detail.table.markdown ++ "\n" := by
  apply String.toList_injective
  simp [DetailSection.markdown, heading, table, MarkdownTable.markdown,
    MarkdownTable.headerLine, MarkdownTable.delimiterLine,
    PropertyRow.markdown_eq, String.toList_join, List.flatMap_map, barred]

/-! ### Details below the parameter table -/

theorem MarkdownTable.exists_markdown_eq (table : MarkdownTable) :
    ∃ text, table.markdown = text ++ "\n" ∧
      text.toList.getLast? = some '|' := by
  rcases List.eq_nil_or_concat table.rows with none | ⟨rows, row, rest⟩
  · refine ⟨table.headerLine ++ "\n" ++ table.delimiterLine, ?_, ?_⟩
    · simp [markdown, none]
    · rw [String.toList_append, List.getLast?_append, delimiterLine,
        getLast?_barred]
      rfl
  · refine ⟨table.headerLine ++ "\n" ++ table.delimiterLine ++ "\n" ++
      String.join (rows.map fun row => barred table.padding row ++ "\n") ++
        barred table.padding row, ?_, ?_⟩
    · simp [markdown, rest, String.append_assoc]
    · rw [String.toList_append, List.getLast?_append, getLast?_barred]
      rfl

/-- A detail section as it stands on the page. -/
def DetailSection.shown (detail : DetailSection) : String :=
  "\n" ++ detail.heading ++ detail.table.markdown

theorem join_markdown_details (details : List DetailSection) :
    "\n" ++ String.join (details.map DetailSection.markdown) =
      String.join (details.map DetailSection.shown) ++ "\n" := by
  induction details with
  | nil => rfl
  | cons detail rest ih =>
      rw [List.map_cons, List.map_cons, String.join_cons, String.join_cons,
        String.append_assoc, ← ih, DetailSection.markdown_eq,
        DetailSection.shown]
      simp only [String.append_assoc]

/-- The text of details ends with a bar and two line feeds. -/
theorem exists_join_markdown_details {details : List DetailSection}
    (listed : details ≠ []) :
    ∃ text, String.join (details.map DetailSection.markdown) = text ++ "\n\n" ∧
      text.toList.getLast? = some '|' := by
  obtain ⟨rest, last, split⟩ := (List.eq_nil_or_concat details).resolve_left
    listed
  obtain ⟨text, written, bar⟩ := last.table.exists_markdown_eq
  refine ⟨String.join (rest.map DetailSection.markdown) ++ last.heading ++
    text, ?_, ?_⟩
  · simp [split, DetailSection.markdown_eq, written, String.append_assoc]
  · rw [String.toList_append, List.getLast?_append, bar]
    rfl

theorem endsSolid_of_bar {text : String}
    (bar : text.toList.getLast? = some '|') : Text.EndsSolid text.toList := by
  intro character last
  obtain rfl : '|' = character := by simpa [bar] using last
  rfl

theorem trimEndString_append_feeds {text : String}
    (bar : text.toList.getLast? = some '|') :
    Text.trimEndString (text ++ "\n\n") = text := by
  have blanks : ∀ character ∈ "\n\n".toList,
      Text.isSpace character = true := by
    simp [Text.isSpace]
  exact Text.trimEndString_append (endsSolid_of_bar bar) blanks

theorem trimEndString_details {details : List DetailSection}
    (listed : details ≠ []) :
    "\n" ++ Text.trimEndString
        (String.join (details.map DetailSection.markdown)) ++ "\n" =
      String.join (details.map DetailSection.shown) := by
  obtain ⟨text, whole, bar⟩ := exists_join_markdown_details listed
  have moved := join_markdown_details details
  rw [whole] at moved ⊢
  rw [trimEndString_append_feeds bar]
  apply (String.append_left_inj "\n").mp
  rw [← moved]
  simp [String.append_assoc]

theorem parameterSection_eq (rows : List RoutePage.ParameterRow)
    (details : List DetailSection) :
    RoutePage.parameterSection rows details =
      ⟨2, some "参数", (RoutePage.parameterTable rows).markdown ++
        String.join (details.map DetailSection.shown)⟩ := by
  rw [RoutePage.markdown_parameterTable]
  cases details with
  | nil => simp [RoutePage.parameterSection, Section.raw, Section.titled]
  | cons detail rest =>
      rw [← trimEndString_details (List.cons_ne_nil detail rest)]
      simp [RoutePage.parameterSection, Section.raw, Section.line,
        Section.titled, String.append_assoc]

namespace RoutePage

/-- The rows of the parameter table: the implicit parameters of the route's
callers, and then the declared ones. -/
def parameterRows (config : Config) (unit : String) (doc : DocComment)
    (route : Route) : List ParameterRow :=
  (implicitParams config route).map implicitRow ++
    (declaredRows config unit doc (resolveParams unit doc route.params).value
      route.params).value

theorem parameters_eq (config : Config) (unit : String) (doc : DocComment)
    (route : Route) :
    (parameters config unit doc route
        (resolveParams unit doc route.params).value).value =
      if route.params.isEmpty then none
      else some ⟨2, some "参数",
        (parameterTable (parameterRows config unit doc route)).markdown ++
          String.join ((route.details unit doc).map DetailSection.shown)⟩ := by
  rw [← parameterSection_eq]
  unfold parameters
  split <;> rfl

/-- The row of a declared parameter shows what is declared, and the annotation
or the text for a missing one. -/
theorem value_declaredRow (config : Config) (unit : String) (doc : DocComment)
    (resolved : Assoc ResolvedType) (name : String) (schema : ParamSchema) :
    (declaredRow config unit doc resolved name schema).value =
      { name
        type :=
          ((Assoc.get? name resolved).map ResolvedType.canonical).getD "any"
        optional := schema.isOptional
        default := schema.defaultText
        description :=
          ((ParamTree.get? name doc.params).bind ParamNode.text?).getD
            missingParameterText } := by
  unfold declaredRow
  cases (ParamTree.get? name doc.params).bind ParamNode.text? with
  | none =>
      cases config.api.specialParamNames.contains name with
      | true => rfl
      | false => rfl
  | some text =>
      cases config.api.specialParamNames.contains name with
      | true => rfl
      | false => rfl

theorem names_declaredRows (config : Config) (unit : String)
    (doc : DocComment) (resolved : Assoc ResolvedType)
    (params : Assoc ParamSchema) :
    (declaredRows config unit doc resolved params).value.map
        ParameterRow.name =
      Assoc.keys params := by
  induction params with
  | nil => rfl
  | cons param rest ih =>
      obtain ⟨name, schema⟩ := param
      simp [declaredRows, value_declaredRow, ih, Assoc.keys]

theorem wellFormed_parameterTable (rows : List ParameterRow) :
    (parameterTable rows).WellFormed where
  headings := by
    simp only [parameterTable, MarkdownTable.fits_blank_iff]
    decide
  delimiters := by simp only [parameterTable]; decide
  rows := by simp [parameterTable, ParameterRow.texts]

theorem records_parameterTable (config : Config) (unit : String)
    (doc : DocComment) (route : Route) :
    (parameterTable (parameterRows config unit doc route)).Records
      ((implicitParams config route).map ImplicitParam.name ++
        Assoc.keys route.params)
      Plain := by
  refine (wellFormed_parameterTable _).records_blank rfl ?_
  rw [← names_declaredRows config unit doc
    (resolveParams unit doc route.params).value]
  simp [parameterTable, parameterRows, ParameterRow.texts, implicitRow,
    Function.comp_def]

end RoutePage

theorem DetailSection.wellFormed_table (detail : DetailSection) :
    detail.table.WellFormed where
  headings := by
    simp only [table, MarkdownTable.fits_blank_iff]
    decide
  delimiters := by simp only [table]; decide
  rows := by simp [table, PropertyRow.texts]

theorem records_details (unit : String) (doc : DocComment) {route : Route}
    (distinct : (Assoc.keys route.params).Nodup) :
    List.Forall₂
      (fun (detail : DetailSection)
          (object : List String × List (String × ParamSchema)) =>
        detail.table.Records (Assoc.keys object.2) Plain)
      (route.details unit doc) (ParamSchema.objectsOf [] route.params) := by
  have outlines := outline_detailSections unit doc distinct
  rw [← List.forall₂_eq_eq_eq, List.forall₂_map_left_iff,
    List.forall₂_map_right_iff] at outlines
  refine outlines.imp fun detail object outline => ?_
  refine detail.wellFormed_table.records_blank rfl ?_
  have names := congrArg (List.map Prod.fst) (congrArg Prod.snd outline)
  simp only [DetailSection.outline, ParamSchema.objectOutline, List.map_map,
    Function.comp_def] at names
  have heads : detail.table.rows.map List.head? =
      (detail.rows.map PropertyRow.name).map some := by
    simp [DetailSection.table, PropertyRow.texts, Function.comp_def]
  rw [heads, names]
  rfl

/-! ## Index pages -/

namespace IndexPage

def link (entry : IndexEntry) : String :=
  "[" ++ entry.name ++ "](" ++ entry.url ++ ")"

def rowTexts (entry : IndexEntry) : List String :=
  [link entry, entry.description]

def groupTable (nameHeader : String) (rows : List IndexEntry) :
    MarkdownTable where
  padding := " "
  header := [nameHeader, "注释"]
  delimiters := [":---", ":---"]
  rows := rows.map rowTexts

theorem wellFormed_groupTable {nameHeader : String}
    (headed : Plain nameHeader) (rows : List IndexEntry) :
    (groupTable nameHeader rows).WellFormed where
  headings := by
    have own : MarkdownTable.Fits " " nameHeader :=
      MarkdownTable.fits_blank_iff.mpr headed
    have comment : MarkdownTable.Fits " " "注释" :=
      MarkdownTable.fits_blank_iff.mpr (by decide)
    simpa [groupTable] using ⟨own, comment⟩
  delimiters := by simp only [groupTable]; decide
  rows := by simp [groupTable, rowTexts]

theorem row_eq (entry : IndexEntry) :
    row entry = barred " " (rowTexts entry) := by
  apply String.toList_injective
  simp [row, rowTexts, link, barred]

theorem markdown_groupTable (nameHeader : String) (rows : List IndexEntry) :
    (groupTable nameHeader rows).markdown =
      String.join ((("| " ++ nameHeader ++ " | 注释 |") :: "|:---|:---|" ::
        rows.map row).map (· ++ "\n")) := by
  apply String.toList_injective
  simp [groupTable, MarkdownTable.markdown, MarkdownTable.headerLine,
    MarkdownTable.delimiterLine, row_eq, Function.comp_def,
    String.toList_join, List.flatMap_map, barred]

theorem groupSection_eq (nameHeader : String) (entries : List IndexEntry)
    (group : String) :
    groupSection nameHeader entries group =
      if (members group entries).isEmpty then none
      else some ⟨3, some group,
        (groupTable nameHeader (members group entries)).markdown⟩ := by
  rw [markdown_groupTable]
  unfold groupSection
  cases members group entries with
  | nil => rfl
  | cons entry rest => simp [Section.lines_eq, Section.titled]

theorem records_groupTable {nameHeader : String}
    (headed : Plain nameHeader) (rows : List IndexEntry) :
    (groupTable nameHeader rows).Records (rows.map link) Plain := by
  refine (wellFormed_groupTable headed rows).records_blank rfl ?_
  simp [groupTable, rowTexts, Function.comp_def]

theorem members_perm (group : String) (entries : List IndexEntry) :
    (members group entries).Perm
      (entries.filter fun entry => entry.group = group) :=
  List.mergeSort_perm _ _

end IndexPage

/-! ## Pages of tables -/

namespace TablePage

def columnTexts (name : String) (column : Column) : List String :=
  [name, column.type, if column.allowNull then "是" else "否",
    defaultCell column, column.commentText]

def columnTable (table : TableSchema) : MarkdownTable where
  padding := ""
  header := ["字段", "类型", "允许为空", "默认值", "注释"]
  delimiters := [":---", ":---", ":---", "---", "---"]
  rows := table.columns.map fun (name, column) => columnTexts name column

theorem wellFormed_columnTable (table : TableSchema) :
    (columnTable table).WellFormed where
  headings := by
    simp only [columnTable, MarkdownTable.fits_bare_iff]
    decide
  delimiters := by simp only [columnTable]; decide
  rows := by
    intro row member
    obtain ⟨column, _, rfl⟩ := List.mem_map.mp member
    rfl

theorem columnRow_eq (name : String) (column : Column) :
    columnRow name column = barred "" (columnTexts name column) := by
  apply String.toList_injective
  simp [columnRow, columnTexts, barred]

theorem markdown_columnTable (table : TableSchema) :
    (columnTable table).markdown =
      String.join (("|字段|类型|允许为空|默认值|注释|" :: "|:---|:---|:---|---|---|" ::
        table.columns.map fun (name, column) => columnRow name column).map
          (· ++ "\n")) := by
  apply String.toList_injective
  simp [columnTable, MarkdownTable.markdown, MarkdownTable.headerLine,
    MarkdownTable.delimiterLine, columnRow_eq, Function.comp_def,
    String.toList_join, List.flatMap_map, barred]

theorem columns_eq (table : TableSchema) :
    columns table = ⟨2, some "字段说明", (columnTable table).markdown⟩ := by
  rw [markdown_columnTable, columns, Section.lines_eq]
  simp [Section.titled]

theorem records_columnTable (table : TableSchema) :
    (columnTable table).Records (Assoc.keys table.columns) fun text =>
      Plain text ∧ text.toList.getLast? ≠ some '\\' := by
  refine (wellFormed_columnTable table).records_bare rfl ?_
  simp [columnTable, columnTexts, Assoc.keys, Function.comp_def]

end TablePage

/-! ## All tables -/

/-- The sections that hold tables are made of them, and each table has one row
for each of its items: the implicit and the declared parameters, the properties
of each declared object, the entries of each group and the columns of a table.
A row is one line with as many cells as the header, and reads back, exactly if
its texts have neither a line feed nor a bar that divides, and, where no blanks
stand around them, no backslash at their ends. -/
theorem pageTables_record (config : Config) (unit : String)
    (doc : DocComment) {route : Route}
    (distinct : (Assoc.keys route.params).Nodup) {nameHeader : String}
    (headed : Plain nameHeader) (entries : List IndexEntry)
    (table : TableSchema) :
    let parameters := RoutePage.parameterTable
      (RoutePage.parameterRows config unit doc route)
    let listing := fun group =>
      IndexPage.groupTable nameHeader (IndexPage.members group entries)
    let columns := TablePage.columnTable table
    ((RoutePage.parameters config unit doc route
          (resolveParams unit doc route.params).value).value =
        if route.params.isEmpty then none
        else some ⟨2, some "参数", parameters.markdown ++
          String.join ((route.details unit doc).map DetailSection.shown)⟩) ∧
      parameters.Records
        ((RoutePage.implicitParams config route).map ImplicitParam.name ++
          Assoc.keys route.params)
        Plain ∧
      List.Forall₂
        (fun detail object =>
          detail.table.Records (Assoc.keys object.2) Plain)
        (route.details unit doc) (ParamSchema.objectsOf [] route.params) ∧
      (∀ group,
        (IndexPage.groupSection nameHeader entries group =
            if (IndexPage.members group entries).isEmpty then none
            else some ⟨3, some group, (listing group).markdown⟩) ∧
          (listing group).Records
            ((IndexPage.members group entries).map IndexPage.link) Plain ∧
          (IndexPage.members group entries).Perm
            (entries.filter fun entry => entry.group = group)) ∧
      TablePage.columns table = ⟨2, some "字段说明", columns.markdown⟩ ∧
      columns.Records (Assoc.keys table.columns) fun text =>
        Plain text ∧ text.toList.getLast? ≠ some '\\' := by
  intro parameters listing columns
  exact ⟨RoutePage.parameters_eq config unit doc route,
    RoutePage.records_parameterTable config unit doc route,
    records_details unit doc distinct,
    fun group => ⟨IndexPage.groupSection_eq nameHeader entries group,
      IndexPage.records_groupTable headed _,
      IndexPage.members_perm group entries⟩,
    TablePage.columns_eq table, TablePage.records_columnTable table⟩

theorem pageTables_record_backslash :
    let param : ImplicitParam := { name := "TTP", description := "a\\|b" }
    let config : Config := { api := { implicitParams := [param] } }
    let route : Route :=
      { params := [("user", .object [("id", .scalar "int" {})] {})] }
    let rows := RoutePage.parameterRows config "user.js" {} route
    let table : TableSchema :=
      { columns := [("flag", { type := "INT", comment := some "on\\" })] }
    (Assoc.keys route.params).Nodup ∧ Plain "接口" ∧
      (RoutePage.parameterTable rows).ReadsBack
        ["TTP", "string", "必填", "-", "a\\|b"] ∧
      ¬ (TablePage.columnTable table).ReadsBack
        ["flag", "INT", "否", "", "on\\"] := by
  intro param config route rows table
  have distinct : (Assoc.keys route.params).Nodup := by decide
  have headed : Plain "接口" := by decide
  obtain ⟨_, params, _, _, _, columns⟩ :=
    pageTables_record config "user.js" {} distinct headed [] table
  refine ⟨distinct, headed, (params.rows _ (by decide)).mpr (by decide), ?_⟩
  rw [columns.rows _ (by decide)]
  decide

/-- The numbers of cells on the lines of the table of columns. -/
def TablePage.cellCounts (table : TableSchema) : List Nat :=
  (Text.lines (TablePage.columns table).body.toList).map fun line =>
    (MarkdownTable.cells line).length

/-- A comment with a line feed makes two lines of one column, and a bar makes
one cell too many. -/
theorem not_cellCounts_columns :
    let table (comment : String) : TableSchema :=
      { columns := [("flag", { type := "INT", comment := some comment })] }
    TablePage.cellCounts (table "0 off\n1 on") = [5, 5, 4, 0] ∧
      TablePage.cellCounts (table "0|1") = [5, 5, 6] ∧
      ¬ ∀ table : TableSchema, TablePage.cellCounts table =
        5 :: 5 :: List.replicate table.columns.length 5 := by
  intro table
  have spanning : TablePage.cellCounts (table "0 off\n1 on") =
      [5, 5, 4, 0] := by
    decide +kernel
  have dividing : TablePage.cellCounts (table "0|1") = [5, 5, 6] := by
    decide +kernel
  refine ⟨spanning, dividing, fun all => ?_⟩
  have counts := all (table "0|1")
  rw [dividing] at counts
  exact absurd counts (by decide)

end TagDoc
