import TagDoc.CommentBlock
import TagDoc.ParamTree

/-!
# Documentation of a unit

The tags of a comment block are sorted by what they document.  Every part of
a `DocComment` depends on the tags of one kind only: the last author and the
last group count, and returns, tables, notes and todos are kept in order.  The
parameter annotations form a tree.
-/

namespace TagDoc

/-- What a unit returns in one case; the case need not have a name. -/
structure ReturnEntry where
  name : String
  description : String
deriving DecidableEq, Repr

/-- The documentation of a unit. -/
structure DocComment where
  description : String := ""
  author : Option String := none
  group : Option String := none
  params : ParamTree := []
  returns : List ReturnEntry := []
  tables : List String := []
  notes : List String := []
  todos : List String := []
deriving Repr

def Tag.ofKind (kind : TagKind) (tags : List Tag) : List Tag :=
  tags.filter fun tag => tag.kind = kind

def Tag.author (tag : Tag) : String :=
  if tag.name.isEmpty then tag.description else tag.name

/-- The path and text of a parameter tag. -/
def Tag.pathText (tag : Tag) : String × String :=
  (tag.name, Text.dropLeadingNewline tag.description)

/-- The entry of a returns tag.  A name without text is the text. -/
def Tag.returnEntry (tag : Tag) : ReturnEntry :=
  let text := Text.dropLeadingNewline tag.description
  if text.isEmpty then ⟨"", tag.name⟩ else ⟨tag.name, text⟩

/-- The item of a table or todo tag. -/
def Tag.item (tag : Tag) : String :=
  Text.dropLeadingNewline tag.body

namespace DocComment

/-- The documentation that a description and tags give for a unit. -/
def ofTags (unit description : String) (tags : List Tag) :
    Diagnosed DocComment := do
  let params ← ParamTree.annotateAll unit []
    ((Tag.ofKind .param tags).map Tag.pathText)
  pure
    { description
      params
      author := (Tag.ofKind .author tags).getLast?.map Tag.author
      group := (Tag.ofKind .group tags).getLast?.map Tag.body
      returns := (Tag.ofKind .returns tags).map Tag.returnEntry
      tables := (Tag.ofKind .table tags).map Tag.item
      notes := (Tag.ofKind .description tags).map Tag.description
      todos := (Tag.ofKind .todo tags).map Tag.item }

/-- The documentation that the first doc block of a source text gives for a
unit; `none` when there is no block. -/
def ofSource? (unit source : String) : Option (Diagnosed DocComment) :=
  (CommentBlock.ofSource source).head?.map fun block =>
    ofTags unit block.description block.tags

end DocComment

end TagDoc
