import TagDoc.Config
import TagDoc.DocComment
import TagDoc.Page
import TagDoc.PageKey
import TagDoc.ResolvedType

/-!
# The page of a route

The sections of a route page have a fixed order: description, base
information, parameters, returns, notes, tables and todos.  A section without
content is left out, except that of the returns, whose absence is an error of
the documentation.
-/

namespace TagDoc

def missingParameterText : String := "该参数缺少注释，请联系开发者补充"

def missingReturnText : String := "缺少返回注释，请通知开发者补上"

namespace RoutePage

/-! ## Base information -/

def ruleText (rule : AuthRule) : String :=
  if rule.check then "特殊权限" else rule.rule.getD "无"

/-- Who may call a route, as shown.  A login requirement hides the internal
servers. -/
def accessText (route : Route) : String :=
  match route.auth, route.rpcAuth with
  | some rule, _ => "限登陆用户访问\n* 需要的权限：" ++ ruleText rule
  | none, some sources => "限内部服务器访问\n* 允许的访问来源：" ++ sources.joined
  | none, none => "无限制"

def switchText (on : Bool) : String :=
  if on then "启用" else "未启用"

def baseInfo (route : Route) : Section :=
  (Section.titled 2 "基本信息").lines
    [ "* 接口：【" ++ route.method ++ "】" ++ route.path,
      "* 访问权限：" ++ accessText route,
      "* IP限制：" ++
        (if route.ip || route.rpcAuth.isSome then "有限制" else "无限制"),
      "* 接口缓存：" ++ switchText route.cache,
      "* 操作日志：" ++ switchText route.logger ]

/-! ## Parameters -/

/-- The two lines above the parameter rows. -/
def parameterHead : String :=
  "| 参数 | 类型 | 是否可选 | 默认值 | 说明 |\n|:-----|:----|:--------|:-------|:-----|\n"

structure ParameterRow where
  name : String
  type : String
  optional : Bool
  default : String
  description : String
deriving DecidableEq, Repr

def ParameterRow.markdown (row : ParameterRow) : String :=
  "| " ++ row.name ++ " | " ++ row.type ++ " | " ++
    (if row.optional then "可选" else "必填") ++ " | " ++ row.default ++ " | " ++
    row.description ++ " |\n"

/-- The row of an implicit parameter, which is always required. -/
def implicitRow (param : ImplicitParam) : ParameterRow :=
  ⟨param.name, param.type, false, "-", param.description⟩

def implicitParams (config : Config) (route : Route) : List ImplicitParam :=
  config.api.implicitParams.filter fun param =>
    route.access.contains param.access

def declaredRow (config : Config) (unit : String) (doc : DocComment)
    (resolved : Assoc ResolvedType) (name : String) (schema : ParamSchema) :
    Diagnosed ParameterRow := do
  if config.api.specialParamNames.contains name then
    Diagnosed.report [.shadowedParameter name unit]
  let type := ((Assoc.get? name resolved).map ResolvedType.canonical).getD "any"
  let description ←
    match (ParamTree.get? name doc.params).bind ParamNode.text? with
    | some text => pure text
    | none => ⟨missingParameterText, [.undocumentedParameter name unit]⟩
  pure ⟨name, type, schema.isOptional, schema.defaultText, description⟩

def declaredRows (config : Config) (unit : String) (doc : DocComment)
    (resolved : Assoc ResolvedType) :
    Assoc ParamSchema → Diagnosed (List ParameterRow)
  | [] => pure []
  | (name, schema) :: rest => do
      let row ← declaredRow config unit doc resolved name schema
      let rows ← declaredRows config unit doc resolved rest
      pure (row :: rows)

def detailSections (resolved : Assoc ResolvedType)
    (params : Assoc ParamSchema) : List DetailSection :=
  params.flatMap fun (name, _) =>
    ((Assoc.get? name resolved).map ResolvedType.details).getD []

def parameterSection (rows : List ParameterRow)
    (details : List DetailSection) : Section :=
  let table := ((Section.titled 2 "参数").raw parameterHead).raw
    (String.join (rows.map ParameterRow.markdown))
  if details.isEmpty then table
  else
    let text := String.join (details.map DetailSection.markdown)
    ((table.line "").raw (Text.trimEndString text)).line ""

/-- The parameter section of a route that declares parameters; implicit ones
alone make no section. -/
def parameters (config : Config) (unit : String) (doc : DocComment)
    (route : Route) (resolved : Assoc ResolvedType) :
    Diagnosed (Option Section) :=
  if route.params.isEmpty then pure none
  else do
    let declared ← declaredRows config unit doc resolved route.params
    let rows := (implicitParams config route).map implicitRow ++ declared
    pure (some (parameterSection rows (detailSections resolved route.params)))

/-! ## Returns -/

/-- Whether a text goes on after its first line.  A text that begins with a
line break does not count. -/
def isMultiline (text : String) : Bool :=
  text.toList.head? != some '\n' && text.toList.contains '\n'

def returnLines (entry : ReturnEntry) : List String :=
  (if entry.name.isEmpty then [] else ["### " ++ entry.name]) ++
    (if isMultiline entry.description then
      ["```js", Text.stripCharEnd '\n' entry.description, "```"]
    else [entry.description]) ++
    [""]

/-- The return section.  A single entry that begins with a line break is
markdown of its own. -/
def returns (unit : String) (entries : List ReturnEntry) : Diagnosed Section :=
  let empty := Section.titled 2 "返回结果"
  match entries with
  | [] => ⟨empty.line missingReturnText, [.undocumentedReturn unit]⟩
  | [only] =>
      if only.description.toList.head? = some '\n' then
        pure (empty.line only.description)
      else pure (empty.lines (returnLines only))
  | entries => pure (empty.lines (entries.flatMap returnLines))

/-! ## Tables -/

/-- The database and the table of a reference; `none` when it is not two
non-empty parts around one `/`. -/
def tableReference? (reference : String) : Option (String × String) :=
  match FilePath.segments reference with
  | [database, table] =>
      if database.isEmpty || table.isEmpty then none
      else some (database, table)
  | _ => none

/-- The URL of the page that a table reference names, if it is in the page
index. -/
def tableUrl? (config : Config) (pages : PageIndex) (database table : String) :
    Option String := do
  let path ← config.dbPath? database
  Assoc.get? (pageKey path table) pages

/-- The item of a table reference: a link if the table has a page. -/
def tableItem (config : Config) (pages : PageIndex) (unit reference : String) :
    Diagnosed String :=
  match tableReference? reference with
  | none => ⟨"* " ++ reference, [.malformedTableReference reference unit]⟩
  | some (database, table) =>
      match tableUrl? config pages database table with
      | some url => pure ("* [" ++ reference ++ "](" ++ url ++ ")")
      | none => pure ("* " ++ reference)

def tableItems (config : Config) (pages : PageIndex) (unit : String) :
    List String → Diagnosed (List String)
  | [] => pure []
  | reference :: rest => do
      let item ← tableItem config pages unit reference
      let items ← tableItems config pages unit rest
      pure (item :: items)

/-- The section of the tables that a route works on, unless there is none. -/
def tables (config : Config) (pages : PageIndex) (unit : String)
    (references : List String) : Diagnosed (Option Section) :=
  if references.isEmpty then pure none
  else do
    let items ← tableItems config pages unit references
    pure (some ((Section.titled 2 "操作的数据表").lines items))

/-! ## The whole page -/

def description (text : String) : Option Section :=
  if text.isEmpty then none else some (Section.untitled.line text)

end RoutePage

open RoutePage in
/-- The page of a route with its documentation and its resolved parameters.
References to tables are links where the page index has their pages. -/
def Page.ofRoute (config : Config) (pages : PageIndex) (unit : String)
    (doc : DocComment) (route : Route) (resolved : Assoc ResolvedType) :
    Diagnosed Page := do
  let params ← parameters config unit doc route resolved
  let results ← returns unit doc.returns
  let references ← tables config pages unit doc.tables
  pure
    { sections :=
        (description doc.description).toList ++ [baseInfo route] ++
          params.toList ++ [results] ++
          (bulletSection "补充说明" doc.notes).toList ++
          references.toList ++
          (bulletSection "未完成事项" doc.todos).toList }

def resolveParams (unit : String) (doc : DocComment) :
    Assoc ParamSchema → Diagnosed (Assoc ResolvedType)
  | [] => pure []
  | (name, schema) :: rest => do
      let type ← ResolvedType.resolve unit name
        (ParamTree.get? name doc.params) schema
      let types ← resolveParams unit doc rest
      pure ((name, type) :: types)

end TagDoc
