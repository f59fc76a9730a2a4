import TagDoc.Json.Decoder
import TagDoc.Json.Printer

/-!
# The table registry

For each database the registry lists its tables, and for each table its
comment, its columns and its keys, all in the order of declaration.
-/

namespace TagDoc

structure Column where
  type : String := ""
  allowNull : Bool := false
  defaultValue : Option Json := none
  autoIncrement : Bool := false
  comment : Option String := none
deriving Repr

structure TableKey where
  columns : List String := []
  unique : Bool := false
deriving DecidableEq, Repr

/-- A long explanation of one column. -/
structure ColumnNote where
  column : String := ""
  description : String := ""
deriving DecidableEq, Repr

structure TableSchema where
  comment : Option String := none
  group : Option String := none
  columns : Assoc Column := []
  keys : Assoc TableKey := []
  notes : List ColumnNote := []
deriving Repr

/-- The tables of each database. -/
abbrev TableRegistry := Assoc (Assoc TableSchema)

/-- What dumps of a schema say of a table without comment. -/
def noTableComment : String := " No comment for this table"

/-- The comment of a table, unless it is empty or says that there is none. -/
def TableSchema.documentedComment (table : TableSchema) : Option String :=
  table.comment.filter fun comment =>
    !comment.isEmpty && comment != noTableComment

def Column.commentText (column : Column) : String :=
  column.comment.getD ""

/-! ## Decoding -/

open Json.Decoder

def Column.decoder (dialect : Dialect) : Json.Decoder Column :=
  record dialect
    [ .needed "type" text fun value column => { column with type := value },
      .spare "allow_null" flag fun value column =>
        { column with allowNull := value },
      .spare "default_value" (optional value) fun value column =>
        { column with defaultValue := value },
      .spare "auto_increment" flag fun value column =>
        { column with autoIncrement := value },
      .spare "comment" (optional text) fun value column =>
        { column with comment := value } ]
    {}

def TableKey.decoder (dialect : Dialect) : Json.Decoder TableKey :=
  record dialect
    [ .needed "keys" (list text) fun value key => { key with columns := value },
      .spare "unique" flag fun value key => { key with unique := value } ]
    {}

def ColumnNote.decoder (dialect : Dialect) : Json.Decoder ColumnNote :=
  record dialect
    [ .needed "column" text fun value note => { note with column := value },
      .needed "desc" text fun value note => { note with description := value } ]
    {}

def TableSchema.decoder (dialect : Dialect) : Json.Decoder TableSchema :=
  record dialect
    [ .spare "comment" (optional text) fun value table =>
        { table with comment := value },
      .spare "group" (optional text) fun value table =>
        { table with group := value },
      .spare "columns" (assoc (Column.decoder dialect)) fun value table =>
        { table with columns := value },
      .spare "keys" (assoc (TableKey.decoder dialect)) fun value table =>
        { table with keys := value },
      .spare "notes" (list (ColumnNote.decoder dialect)) fun value table =>
        { table with notes := value } ]
    {}

/-- The table registry: an object of databases, each an object of tables. -/
def TableSchema.registry (dialect : Dialect) : Json.Decoder TableRegistry :=
  assoc (assoc (TableSchema.decoder dialect))

end TagDoc
