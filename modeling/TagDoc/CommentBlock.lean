import TagDoc.Tag
import TagDoc.Text

/-!
# Doc blocks of a source text

A doc block stands between `/**` and the next `*/`.  Each of its lines loses
its gutter: the indentation, one `*` and one blank.  Lines before the first tag
line are the description of the block, and each tag takes the lines up to the
next tag line.

`CommentBlock.ofSource` gives the blocks of a source text in order.  The work
is done line by line: `splitTags` divides the lines among the tags, and
`openTag?` and `closeTag` make a tag of its lines.
-/

namespace TagDoc

structure CommentBlock where
  description : String
  tags : List Tag
deriving DecidableEq, Repr

namespace CommentBlock

/-! ## Blocks -/

/-- The inner texts of the doc blocks from here on.  Inside a block its
characters so far are given in reverse; a block that is never closed is
none. -/
def bodiesFrom : Option (List Char) → List Char → List (List Char)
  | _, [] => []
  | none, '/' :: '*' :: '*' :: rest => bodiesFrom (some []) rest
  | none, _ :: rest => bodiesFrom none rest
  | some body, '*' :: '/' :: rest => body.reverse :: bodiesFrom none rest
  | some body, character :: rest => bodiesFrom (some (character :: body)) rest

def bodies (source : List Char) : List (List Char) :=
  bodiesFrom none source

/-! ## Lines -/

/-- A text without one leading character that satisfies `strip`. -/
def dropOne (strip : Char → Bool) : List Char → List Char
  | [] => []
  | character :: rest => if strip character then rest else character :: rest

def dropGutter (line : List Char) : List Char :=
  dropOne Text.isBlank (dropOne (· == '*') (line.dropWhile Text.isBlank))

/-- The lines of a block as they are read: without gutter and without white
space at the end. -/
def contentLines (body : List Char) : List (List Char) :=
  (Text.lines body).map fun line => Text.trimEnd (dropGutter line)

/-! ## Tag lines -/

def isNameCharacter (character : Char) : Bool :=
  Text.isLetter character || Text.isDigit character || character == '_' ||
    character == '-'

/-- The name and the rest of a tag line; `none` for any other line. -/
def tagLine? : List Char → Option (List Char × List Char)
  | '@' :: first :: rest =>
      if Text.isLetter first then
        some (first :: rest.takeWhile isNameCharacter,
          (rest.dropWhile isNameCharacter).dropWhile Text.isBlank)
      else none
  | _ => none

/-- A text without a type in braces at its start. -/
def dropType : List Char → List Char
  | '{' :: rest =>
      match Text.splitAtFirst (· == '}') rest with
      | some (_, after) => after.dropWhile Text.isBlank
      | none => '{' :: rest
  | text => text

/-- The first word of a text, and what follows the white space after it. -/
def splitWord (text : List Char) : List Char × List Char :=
  match Text.splitAtFirst Text.isSpace text with
  | some (word, after) => (word, Text.trimStart after)
  | none => (text, [])

/-- The name in `[name]` or `[name=default]`; any other word is a name as it
stands. -/
def dropBrackets (word : List Char) : List Char :=
  match word with
  | '[' :: inner =>
      if inner.getLast? = some ']' then
        inner.dropLast.takeWhile (· != '=')
      else word
  | _ => word

/-- The tag that a tag line opens, from its name and the rest of the line. -/
def openTag (name rest : List Char) : Tag :=
  match TagKind.ofName (String.ofList name) with
  | .param => named .param
  | .returns => named .returns
  | .description => ⟨.description, "", String.ofList rest⟩
  | kind => ⟨kind, String.ofList rest, ""⟩
where
  /-- A tag with a name of its own before its text. -/
  named (kind : TagKind) : Tag :=
    let (word, text) := splitWord (dropType rest)
    ⟨kind, String.ofList (dropBrackets word), String.ofList text⟩

/-- The tag that a line opens; `none` for a line that continues. -/
def openTag? (line : List Char) : Option Tag :=
  (tagLine? line).map fun (name, rest) => openTag name rest

/-- Add a line to a tag.  The first line of a description that is still empty
starts it. -/
def continueTag (tag : Tag) (line : List Char) : Tag :=
  if tag.kind = .description ∧ tag.description.isEmpty then
    { tag with description := String.ofList line }
  else
    { tag with description := tag.description ++ "\n" ++ String.ofList line }

def closeTag (tag : Tag) (lines : List (List Char)) : Tag :=
  let full := lines.foldl continueTag tag
  { full with description := Text.trimEndString full.description }

/-! ## Whole blocks -/

/-- The lines before the first tag line, and each tag with the lines that
continue it. -/
def splitTags :
    List (List Char) → List (List Char) × List (Tag × List (List Char))
  | [] => ([], [])
  | line :: rest =>
      let (head, tags) := splitTags rest
      match openTag? line with
      | some tag => ([], (tag, head) :: tags)
      | none => (line :: head, tags)

def joinLines (lines : List (List Char)) : String :=
  String.ofList (Text.trim (['\n'].intercalate lines))

def ofBody (body : List Char) : CommentBlock :=
  let (head, tags) := splitTags (contentLines body)
  ⟨joinLines head, tags.map fun (tag, lines) => closeTag tag lines⟩

def ofSource (source : String) : List CommentBlock :=
  (bodies source.toList).map ofBody

end CommentBlock

end TagDoc
