/-!
# Characters, trimming and lines

The text operations that the comment language, the tables and the registry
readers share.  They act on lists of characters; a few have a companion on
`String` for callers that hold whole texts.
-/

namespace TagDoc.Text

/-- The characters of the Unicode property `White_Space`. -/
def isSpace (character : Char) : Bool :=
  let point := character.toNat
  (9 ≤ point && point ≤ 13) || point == 0x20 || point == 0x85 ||
    point == 0xA0 || point == 0x1680 || (0x2000 ≤ point && point ≤ 0x200A) ||
    point == 0x2028 || point == 0x2029 || point == 0x202F ||
    point == 0x205F || point == 0x3000

/-- The two characters that indent a line: space and tabulator. -/
def isBlank (character : Char) : Bool :=
  character == ' ' || character == '\t'

def isLetter (character : Char) : Bool :=
  ('a' ≤ character && character ≤ 'z') || ('A' ≤ character && character ≤ 'Z')

def isDigit (character : Char) : Bool :=
  '0' ≤ character && character ≤ '9'

def trimStart (text : List Char) : List Char :=
  text.dropWhile isSpace

/-- The text without the characters at its end that satisfy `strip`. -/
def dropEndWhile (strip : Char → Bool) (text : List Char) : List Char :=
  (text.reverse.dropWhile strip).reverse

def trimEnd (text : List Char) : List Char :=
  dropEndWhile isSpace text

def trim (text : List Char) : List Char :=
  trimEnd (trimStart text)

/-- The line that ends before a line feed, given in reverse: a carriage return
directly before the line feed belongs to the line end. -/
def closeLine : List Char → List Char
  | '\r' :: line => line.reverse
  | line => line.reverse

/-- The lines of a text that continues a line whose characters so far are
given in reverse.  A text that ends with a line feed has no further line. -/
def linesFrom : List Char → List Char → List (List Char)
  | [], [] => []
  | line, [] => [line.reverse]
  | line, '\n' :: rest => closeLine line :: linesFrom [] rest
  | line, character :: rest => linesFrom (character :: line) rest

/-- The lines of a text, without their line ends. -/
def lines (text : List Char) : List (List Char) :=
  linesFrom [] text

/-- The characters before the first one that satisfies `here`, and those
after it; `none` when there is no such character. -/
def splitAtFirst (here : Char → Bool) : List Char → Option (List Char × List Char)
  | [] => none
  | character :: rest =>
      if here character then some ([], rest)
      else (splitAtFirst here rest).map fun (before, after) =>
        (character :: before, after)

def trimEndString (text : String) : String :=
  String.ofList (trimEnd text.toList)

def stripChar (character : Char) (text : String) : String :=
  String.ofList
    (dropEndWhile (· == character) (text.toList.dropWhile (· == character)))

def stripCharEnd (character : Char) (text : String) : String :=
  String.ofList (dropEndWhile (· == character) text.toList)

def stripCharStart (character : Char) (text : String) : String :=
  String.ofList (text.toList.dropWhile (· == character))

def dropLeadingNewline (text : String) : String :=
  match text.toList with
  | '\n' :: rest => String.ofList rest
  | _ => text

end TagDoc.Text
