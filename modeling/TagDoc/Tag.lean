/-!
# Tags of a doc comment

A tag is an `@name` line of a doc comment with the lines that follow it.
-/

namespace TagDoc

/-- What a tag is about.  Tags of other kinds keep their name. -/
inductive TagKind where
  | author
  | param
  | returns
  | group
  | description
  | table
  | todo
  | other (name : String)
deriving DecidableEq, Repr

def TagKind.ofName : String → TagKind
  | "author" => .author
  | "param" => .param
  | "returns" => .returns
  | "group" => .group
  | "description" => .description
  | "table" => .table
  | "todo" => .todo
  | name => .other name

def TagKind.name : TagKind → String
  | .author => "author"
  | .param => "param"
  | .returns => "returns"
  | .group => "group"
  | .description => "description"
  | .table => "table"
  | .todo => "todo"
  | .other name => name

structure Tag where
  kind : TagKind
  name : String
  description : String
deriving DecidableEq, Repr

/-- The text of a tag, or its name when it has no text. -/
def Tag.body (tag : Tag) : String :=
  if tag.description.isEmpty then tag.name else tag.description

end TagDoc
