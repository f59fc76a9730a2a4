import TagDoc.Json.Decoder
import TagDoc.Toml.Scalar
import TagDoc.Toml.Table

/-!
# TOML documents

The statements of a document are read one after the other: assignments, table
headers and headers of array elements, each on a line of its own.  Values nest
less than eighty levels deep, and keys have less than eighty parts.
`Toml.ofText?` gives the meaning of a text, or `none` where it is no document.
-/

namespace TagDoc.Toml

open Json (Draft)

/-- The number of levels that values and keys stay below. -/
def depthLimit : Nat := 80

/-! ## Gaps -/

def dropBlanks (text : List Char) : List Char :=
  text.dropWhile Text.isBlank

/-- The text after blanks, line breaks and comments.  `comment` tells whether
a comment is under way. -/
def dropGap (comment : Bool) : List Char → List Char
  | '\n' :: rest => dropGap false rest
  | '\r' :: '\n' :: rest => dropGap false rest
  | '#' :: rest => dropGap true rest
  | character :: rest =>
      if comment then
        if isPlain character then dropGap true rest else character :: rest
      else if Text.isBlank character then dropGap false rest
      else character :: rest
  | [] => []

/-- The text after the line break at its start; the end of the text counts as
one. -/
def afterLineBreak? : List Char → Option (List Char)
  | '\n' :: rest => some rest
  | '\r' :: '\n' :: rest => some rest
  | [] => some []
  | _ => none

/-- The text after the rest of a line, which may hold a comment only. -/
def afterLine? (text : List Char) : Option (List Char) :=
  match dropBlanks text with
  | '#' :: rest => afterLineBreak? (rest.dropWhile isPlain)
  | rest => afterLineBreak? rest

/-! ## Keys -/

def isBare (character : Char) : Bool :=
  Text.isLetter character || Text.isDigit character || character == '_' ||
    character == '-'

def scanPart (text : List Char) : Option (Scanned String) :=
  match text with
  | '"' :: rest => basicFrom [] rest
  | '\'' :: rest => literal rest
  | text =>
      match text.takeWhile isBare with
      | [] => none
      | name => some (String.ofList name, text.dropWhile isBare)

/-- The parts of a key, of which there may be as many as `budget`. -/
def scanParts : Nat → List Char → Option (Scanned (List String))
  | 0, _ => none
  | budget + 1, text => do
      let (part, rest) ← scanPart (dropBlanks text)
      match dropBlanks rest with
      | '.' :: rest =>
          let (parts, rest) ← scanParts budget rest
          some (part :: parts, rest)
      | rest => some ([part], rest)

/-- A key: the path of tables, and the last part. -/
def scanKey (text : List Char) : Option (Scanned (List String × String)) := do
  let (parts, rest) ← scanParts (depthLimit - 1) text
  let last ← parts.getLast?
  some ((parts.dropLast, last), rest)

/-! ## Values -/

/-- An assignment inside a table: its key, and its value. -/
structure Assignment where
  path : List String
  key : String
  value : Draft

def scanAssignment (value : List Char → Option (Scanned Draft)) (text : List Char) :
    Option (Scanned Assignment) := do
  let ((path, key), rest) ← scanKey text
  match rest with
  | '=' :: rest =>
      let (value, rest) ← value (dropBlanks rest)
      some (⟨path, key, value⟩, rest)
  | _ => none

/-- The items of an array after its opening bracket; one comma may follow the
last one. -/
def scanItems (value : List Char → Option (Scanned Draft)) :
    Nat → List Char → Option (Scanned (List Draft))
  | 0, _ => none
  | fuel + 1, text =>
      match dropGap false text with
      | ']' :: rest => some ([], rest)
      | text => do
          let (item, rest) ← value text
          match dropGap false rest with
          | ']' :: rest => some ([item], rest)
          | ',' :: rest =>
              let (items, rest) ← scanItems value fuel rest
              some (item :: items, rest)
          | _ => none

/-- The assignments of an inline table, of which there is at least one. -/
def scanAssignments (value : List Char → Option (Scanned Draft)) :
    Nat → List Char → Option (Scanned (List Assignment))
  | 0, _ => none
  | fuel + 1, text => do
      let (first, rest) ← scanAssignment value text
      match dropBlanks rest with
      | '}' :: rest => some ([first], rest)
      | ',' :: rest =>
          let (others, rest) ← scanAssignments value fuel rest
          some (first :: others, rest)
      | _ => none

def inlineTable? (assignments : List Assignment) : Option Draft := do
  let entries ← assignments.foldlM
    (fun entries one => define one.path one.key one.value entries) []
  some (Item.table false false entries).draft

def scanInlineTable (value : List Char → Option (Scanned Draft)) (text : List Char) :
    Option (Scanned Draft) :=
  match dropBlanks text with
  | '}' :: rest => some (.object 0 [] .closed, rest)
  | text => do
      let (assignments, rest) ← scanAssignments value (text.length + 1) text
      let table ← inlineTable? assignments
      some (table, rest)

/-- A value; arrays and inline tables may nest as deep as `budget`. -/
def scanValue : Nat → List Char → Option (Scanned Draft)
  | budget, '[' :: rest =>
      match budget with
      | 0 => none
      | budget + 1 => do
          let (items, rest) ←
            scanItems (scanValue budget) (rest.length + 1) rest
          some (.array 0 items .closed, rest)
  | budget, '{' :: rest =>
      match budget with
      | 0 => none
      | budget + 1 => scanInlineTable (scanValue budget) rest
  | _, 't' :: 'r' :: 'u' :: 'e' :: rest => some (.bool true, rest)
  | _, 'f' :: 'a' :: 'l' :: 's' :: 'e' :: rest => some (.bool false, rest)
  | _, '"' :: rest => scanText ('"' :: rest)
  | _, '\'' :: rest => scanText ('\'' :: rest)
  | _, text =>
      match scanMoment text with
      | some result => some result
      | none => scanNumber text
where
  /-- A string as a value. -/
  scanText (text : List Char) : Option (Scanned Draft) := do
    let (text, rest) ← scanString text
    some (.string (some text), rest)

/-! ## Statements -/

/-- The name in a header, and the text after the header's line. -/
def scanHeader (closing : List Char) (text : List Char) :
    Option (Scanned (List String × String)) := do
  let (name, rest) ← scanKey text
  if closing.isPrefixOf rest then do
    let rest ← afterLine? (rest.drop closing.length)
    some (name, rest)
  else none

/-- Read statements up to the end of the text. -/
def scanStatements : Nat → List Char → Outline → Option Outline
  | 0, _, _ => none
  | fuel + 1, text, outline =>
      match dropBlanks text with
      | [] => some outline
      | '\n' :: rest => scanStatements fuel rest outline
      | '\r' :: '\n' :: rest => scanStatements fuel rest outline
      | '#' :: rest => do
          let rest ← afterLine? ('#' :: rest)
          scanStatements fuel rest outline
      | '[' :: '[' :: rest => do
          let ((path, key), rest) ← scanHeader [']', ']'] rest
          let outline ← outline.beginElement path key
          scanStatements fuel rest outline
      | '[' :: rest => do
          let ((path, key), rest) ← scanHeader [']'] rest
          let outline ← outline.beginTable path key
          scanStatements fuel rest outline
      | text => do
          let (one, rest) ← scanAssignment (scanValue (depthLimit - 1)) text
          let rest ← afterLine? rest
          let outline ← outline.assign one.path one.key one.value
          scanStatements fuel rest outline

def dropMark : List Char → List Char
  | '\uFEFF' :: rest => rest
  | text => text

def ofText? (text : String) : Option Draft := do
  let characters := dropMark text.toList
  let outline ← scanStatements (characters.length + 1) characters {}
  let root ← outline.finish
  some (Item.table false false root).draft

/-- Records in TOML documents: an array may have more items than the record
has fields, and an empty table or array carries nothing. -/
def dialect : Json.Decoder.Dialect where
  surplusFault := none
  carriesNothing
    | .object _ [] .closed => true
    | .array _ [] .closed => true
    | _ => false

end TagDoc.Toml
