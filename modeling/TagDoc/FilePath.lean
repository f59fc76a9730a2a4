/-!
# File paths

A path is a text with `/` between its segments.  Joining normalizes nothing:
it adds at most one `/`.  The parent of a path drops its last segment; empty
segments and `.` count as segments only where they stand for the root or for
a leading `.`.
-/

namespace TagDoc.FilePath

def isAbsolute (path : String) : Bool :=
  path.toList.head? == some '/'

/-- The path `path` as seen from the directory `base`. -/
def join (base path : String) : String :=
  if isAbsolute path then path
  else if base.isEmpty || base.toList.getLast? == some '/' then base ++ path
  else base ++ "/" ++ path

/-- The segments of a path, empty ones included. -/
def segments (path : String) : List String :=
  (path.toList.splitOn '/').map String.ofList

/-- The segments of a path that name something. -/
def namedSegments (path : String) : List String :=
  (segments path).filter fun segment => segment != "" && segment != "."

/-- The paths from `base` along the segments, one for each. -/
def along (base : String) : List String → List String
  | [] => []
  | segment :: rest => join base segment :: along (join base segment) rest

/-- The paths of the directories on the way to a path, and the path itself. -/
def stations (path : String) : List String :=
  along (if isAbsolute path then "/" else "") (namedSegments path)

/-- A reversed path without the separators and lone dots at its end. -/
def dropTail : List Char → List Char
  | '/' :: rest => dropTail rest
  | ['.'] => []
  | '.' :: '/' :: rest => dropTail ('/' :: rest)
  | path => path

/-- The part of a path that no parent drops, and the rest: the root, a leading
`.`, or nothing. -/
def splitHead : List Char → List Char × List Char
  | '/' :: rest => (['/'], rest)
  | ['.'] => (['.'], [])
  | '.' :: '/' :: rest => (['.'], '/' :: rest)
  | path => ([], path)

/-- The path without its last segment; `none` for the root and for the empty
path. -/
def parent? (path : String) : Option String :=
  let (head, body) := splitHead path.toList
  match dropTail body.reverse with
  | [] => if head == ['.'] then some "" else none
  | reversed =>
      let before := dropTail (reversed.dropWhile (· != '/'))
      some (String.ofList (head ++ before.reverse))

end TagDoc.FilePath
