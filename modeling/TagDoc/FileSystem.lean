import TagDoc.Assoc
import TagDoc.Failure
import TagDoc.FilePath
import TagDoc.Text.Utf8

/-!
# File systems

A file system is a tree of directories and regular files with a working
directory.  Paths are followed segment by segment, so that `..` leaves the
directory that was reached and every segment but the last must be a directory.
The operations are those that documentation needs: reading a text, writing a
text, creating directories, and asking what a path is.
-/

namespace TagDoc

/-- What a regular file holds: a text, or bytes that are none. -/
inductive FileContent where
  | readable (text : String)
  | raw (bytes : List UInt8)
deriving DecidableEq, Repr

def FileContent.ofBytes (bytes : List UInt8) : FileContent :=
  match Text.Utf8.decode? bytes with
  | some text => .readable text
  | none => .raw bytes

def FileContent.lossyText : FileContent → String
  | .readable text => text
  | .raw bytes => Text.Utf8.decodeLossy bytes

/-- A file or a directory with its named entries. -/
inductive FileEntry where
  | file (content : FileContent)
  | directory (entries : List (String × FileEntry))
deriving Repr

namespace FileEntry

def child? (name : String) : FileEntry → Option FileEntry
  | .file _ => none
  | .directory entries => Assoc.get? name entries

def at? : List String → FileEntry → Option FileEntry
  | [], entry => some entry
  | name :: rest, entry => do
      let child ← entry.child? name
      child.at? rest

/-- Put an entry below a sequence of names.  Names that are missing on the
way, or are files, become directories. -/
def put (entry : FileEntry) : List String → FileEntry → FileEntry
  | [], value => value
  | name :: rest, value =>
      let entries :=
        match entry with
        | .file _ => []
        | .directory entries => entries
      let child := (Assoc.get? name entries).getD (.directory [])
      .directory (Assoc.put name (child.put rest value) entries)

def isDirectory : FileEntry → Bool
  | .file _ => false
  | .directory _ => true

mutual

def files (path : String) : FileEntry → List (String × FileContent)
  | .file content => [(path, content)]
  | .directory entries => filesIn path entries

def filesIn (path : String) :
    List (String × FileEntry) → List (String × FileContent)
  | [] => []
  | (name, entry) :: rest =>
      entry.files (if path.isEmpty then name else path ++ "/" ++ name) ++
        filesIn path rest

end

end FileEntry

/-- A directory tree and the place in it from which relative paths start. -/
structure FileSystem where
  root : FileEntry
  workingDirectory : List String

namespace FileSystem

/-- A file system that has nothing but its working directory. -/
def startingIn (names : List String) : FileSystem :=
  { root := FileEntry.put (.directory []) names (.directory [])
    workingDirectory := names }

def empty : FileSystem :=
  startingIn ["work"]

def nameLimit : Nat := 255

def pathLimit : Nat := 4096

/-- The names along the segments, starting from the entry with the names
`here`. -/
def follow (root : FileEntry) :
    List String → List String → Except FileError (List String)
  | here, [] => .ok here
  | here, segment :: rest =>
      match root.at? here with
      | none => .error .notFound
      | some (.file _) => .error .notDirectory
      | some (.directory entries) =>
          if segment == "" || segment == "." then follow root here rest
          else if segment == ".." then follow root here.dropLast rest
          else if nameLimit < segment.utf8ByteSize then .error .nameTooLong
          else if (Assoc.get? segment entries).isNone then .error .notFound
          else follow root (here ++ [segment]) rest

def checkPath (path : String) : Except FileError Unit :=
  if path.toList.contains '\x00' then .error .zeroByte
  else if path.isEmpty then .error .notFound
  else if pathLimit ≤ path.utf8ByteSize then .error .nameTooLong
  else .ok ()

def origin (system : FileSystem) (path : String) : List String :=
  if FilePath.isAbsolute path then [] else system.workingDirectory

def locate (system : FileSystem) (path : String) :
    Except FileError (List String) := do
  checkPath path
  follow system.root (system.origin path) (FilePath.segments path)

def entry? (system : FileSystem) (path : String) : Option FileEntry :=
  match system.locate path with
  | .ok names => system.root.at? names
  | .error _ => none

def isFile (system : FileSystem) (path : String) : Bool :=
  match system.entry? path with
  | some (.file _) => true
  | _ => false

def isDirectory (system : FileSystem) (path : String) : Bool :=
  match system.entry? path with
  | some (.directory _) => true
  | _ => false

def read (system : FileSystem) (path : String) : Except FileError String := do
  let names ← system.locate path
  match system.root.at? names with
  | some (.file (.readable text)) => .ok text
  | some (.file (.raw _)) => .error .notText
  | some (.directory _) => .error .isDirectory
  | none => .error .notFound

/-- The directory that holds the last segment of a path, and that segment. -/
def locateLast (system : FileSystem) (path : String)
    (segments : List String) : Except FileError (List String × String) := do
  checkPath path
  let name := segments.getLast?.getD ""
  let names ← follow system.root (system.origin path) segments.dropLast
  match system.root.at? names with
  | some (.directory _) =>
      if nameLimit < name.utf8ByteSize then .error .nameTooLong
      else .ok (names, name)
  | some (.file _) => .error .notDirectory
  | none => .error .notFound

/-- Write a text to the file at a path, which is created if it is missing. -/
def write (system : FileSystem) (path text : String) :
    Except FileError FileSystem := do
  let (names, name) ← system.locateLast path (FilePath.segments path)
  if name == "" || name == "." || name == ".." then .error .isDirectory
  else
    match system.root.at? (names ++ [name]) with
    | some (.directory _) => .error .isDirectory
    | _ =>
        let root := system.root.put (names ++ [name]) (.file (.readable text))
        .ok { system with root }

/-- Create the directory at the end of the segments; its parent must exist. -/
def createDirectory (system : FileSystem) (path : String)
    (segments : List String) : Except FileError FileSystem := do
  let (names, name) ← system.locateLast path segments
  if name == "" || name == ".." then .error .alreadyExists
  else if (system.root.at? (names ++ [name])).isSome then
    .error .alreadyExists
  else
    .ok { system with root := system.root.put (names ++ [name]) (.directory []) }

def leadsToDirectory (system : FileSystem) (path : String)
    (segments : List String) : Bool :=
  match follow system.root (system.origin path) segments with
  | .ok names => ((system.root.at? names).map FileEntry.isDirectory).getD false
  | .error _ => false

/-- Create the directory at the end of reversed segments, unless it is there;
what was created stays when a later step fails. -/
def ensureDirectory (path : String) :
    List String → FileSystem → Except FileError Unit × FileSystem
  | [], system => (.ok (), system)
  | name :: before, system =>
      let segments := (name :: before).reverse
      let accept (system : FileSystem) (error : FileError) :
          Except FileError Unit × FileSystem :=
        if system.leadsToDirectory path segments then (.ok (), system)
        else (.error error, system)
      match system.createDirectory path segments with
      | .ok system => (.ok (), system)
      | .error .notFound =>
          match ensureDirectory path before system with
          | (.error error, system) => (.error error, system)
          | (.ok (), system) =>
              match system.createDirectory path segments with
              | .ok system => (.ok (), system)
              | .error error => accept system error
      | .error error => accept system error

/-- Create the directory at a path and those above it.  The empty path is
there already. -/
def createDirectories (path : String) (system : FileSystem) :
    Except FileError Unit × FileSystem :=
  if path.isEmpty then (.ok (), system)
  else
    match checkPath path with
    | .error error => (.error error, system)
    | .ok () => ensureDirectory path (FilePath.namedSegments path).reverse system

/-- The names that a path leads through when all of them are directories. -/
def names (system : FileSystem) (path : String) : List String :=
  (FilePath.namedSegments path).foldl
    (fun here segment =>
      if segment == ".." then here.dropLast else here ++ [segment])
    (system.origin path)

/-- Install an entry at a path, with all directories on the way. -/
def install (path : String) (entry : FileEntry) (system : FileSystem) :
    FileSystem :=
  let names := system.names path
  match entry, system.root.at? names with
  | .directory [], some (.directory _) => system
  | _, _ => { system with root := system.root.put names entry }

def ofEntries (entries : List (String × FileEntry)) : FileSystem :=
  entries.foldl (fun system (path, entry) => system.install path entry) empty

def sortFiles (files : List (String × FileContent)) :
    List (String × FileContent) :=
  files.mergeSort fun left right => !(right.1 < left.1)

/-- The regular files below a path, with paths that begin with it. -/
def filesBelow (system : FileSystem) (path : String) :
    List (String × FileContent) :=
  match system.entry? path with
  | some (.directory entries) => sortFiles (FileEntry.filesIn path entries)
  | _ => []

def workingFiles (system : FileSystem) : List (String × FileContent) :=
  match system.root.at? system.workingDirectory with
  | some entry => sortFiles (entry.files "")
  | none => []

end FileSystem

end TagDoc
