import TagDoc.Finding
import TagDoc.Page
import TagDoc.TableSchema

/-!
# The page of a table

A table page has its comment, a row for every column, the notes on single
columns, and the keys.
-/

namespace TagDoc

namespace TablePage

def defaultCell (column : Column) : String :=
  if column.autoIncrement then "自增字段"
  else
    match column.defaultValue with
    | none => ""
    | some .null => ""
    | some (.string text) => text
    | some value => value.compact

def columnRow (name : String) (column : Column) : String :=
  "|" ++ name ++ "|" ++ column.type ++ "|" ++
    (if column.allowNull then "是" else "否") ++ "|" ++ defaultCell column ++
    "|" ++ column.commentText ++ "|"

def columnFindings (unit name : String) (column : Column) : List Finding :=
  if column.commentText.isEmpty then [.uncommentedColumn unit name] else []

def commentFindings (unit : String) (table : TableSchema) : List Finding :=
  if table.documentedComment.isNone then [.uncommentedTable unit] else []

def summary (table : TableSchema) : Section :=
  Section.untitled.line ("-  " ++ table.documentedComment.getD "")

def columns (table : TableSchema) : Section :=
  (Section.titled 2 "字段说明").lines
    ("|字段|类型|允许为空|默认值|注释|" :: "|:---|:---|:---|---|---|" ::
      table.columns.map fun (name, column) => columnRow name column)

def note (note : ColumnNote) : Section :=
  (Section.titled 4 ("字段详解：" ++ note.column)).line note.description

def keyItem (name : String) (key : TableKey) : String :=
  let columns := String.intercalate "," key.columns
  if name = "PRIMARY" then "- 主键：" ++ columns
  else
    "- " ++ (if key.unique then "唯一索引" else "普通索引") ++ " " ++ name ++ ":" ++
      columns

def keys (table : TableSchema) : Section :=
  (Section.titled 2 "数据索引").lines
    (table.keys.map fun (name, key) => keyItem name key)

end TablePage

open TablePage in
/-- The page of a table; the unit is the table's name with its database. -/
def Page.ofTable (unit : String) (table : TableSchema) : Diagnosed Page :=
  { value :=
      { sections :=
          [summary table, TablePage.columns table] ++ table.notes.map note ++
            [TablePage.keys table] }
    findings :=
      commentFindings unit table ++
        table.columns.flatMap fun (name, column) =>
          columnFindings unit name column }

end TagDoc
