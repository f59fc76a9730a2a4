import TagDoc.Disk
import TagDoc.Json.Decoder
import TagDoc.Json.Printer
import TagDoc.Workspace

/-!
# Pages on disk

A disk store writes every page to a file of its own below its root, and the
page index to `pages.json` there, from which a later run takes it up again.
-/

namespace TagDoc

/-- What the page index keeps of a page. -/
structure PageRecord where
  url : String := ""
  order : Nat := 0
deriving DecidableEq, Repr

def indexFile : String := "pages.json"

/-! ## The page index as JSON -/

def PageRecord.json (record : PageRecord) : Json :=
  .object
    [("url", .string record.url), ("order", .number (.integer record.order))]

/-- The text of a page index. -/
def PageRecord.indexText (index : Assoc PageRecord) : String :=
  (Json.object
    [("pages", .object (index.map fun (key, page) => (key, page.json)))]).pretty
    0

open Json.Decoder in
def PageRecord.decoder : Json.Decoder PageRecord :=
  record .text
    [ .needed "url" text fun value page => { page with url := value },
      .needed "order" count fun value page => { page with order := value } ]
    {}

open Json.Decoder in
def PageRecord.indexDecoder : Json.Decoder (Assoc PageRecord) :=
  record .text
    [.needed "pages" (assoc PageRecord.decoder) fun value _ => value]
    []

/-- The page index that a text holds. -/
def PageRecord.indexOfText (text : String) : Except Fault (Assoc PageRecord) :=
  (Json.Document.ofText text).decode PageRecord.indexDecoder

/-! ## The store -/

/-- A directory of pages with its index. -/
structure DiskStore where
  root : String
  baseUrl : Option String := none
  index : Assoc PageRecord := []
deriving DecidableEq, Repr

namespace DiskStore

variable {δ : Type}

/-- Take up the page index of a directory, which is created if it is
missing. -/
def load (disk : Disk δ) (root : String) (baseUrl : Option String)
    (files : δ) : Except Failure DiskStore × δ :=
  match disk.createDirectories root files with
  | (.error error, files) => (.error (.createOutput root error), files)
  | (.ok (), files) =>
      let path := FilePath.join root indexFile
      if disk.isFile path files then
        match disk.read path files with
        | .error error => (.error (.read path error), files)
        | .ok text =>
            match PageRecord.indexOfText text with
            | .error _ => (.error (.invalidIndex path), files)
            | .ok index => (.ok { root, baseUrl, index }, files)
      else (.ok { root, baseUrl }, files)

def pageIndex (store : DiskStore) : PageIndex :=
  store.index.map fun (key, page) => (key, page.url)

def pagePath (store : DiskStore) (key : String) : String :=
  FilePath.join store.root (key ++ ".md")

def createParent (disk : Disk δ) (path : String) (files : δ) :
    Except Failure Unit × δ :=
  match FilePath.parent? path with
  | none => (.ok (), files)
  | some parent =>
      match disk.createDirectories parent files with
      | (.error error, files) => (.error (.createDirectory parent error), files)
      | (.ok (), files) => (.ok (), files)

def writeText (disk : Disk δ) (path text : String) (files : δ) :
    Except Failure Unit × δ :=
  match disk.write path text files with
  | (.error error, files) => (.error (.write path error), files)
  | (.ok (), files) => (.ok (), files)

/-- Save a page and give its URL.  The page is written first, then it enters
the index, and last the index is written. -/
def save (disk : Disk δ) (draft : PageDraft) (store : DiskStore) (files : δ) :
    Except Failure String × DiskStore × δ :=
  let path := store.pagePath draft.key
  match createParent disk path files with
  | (.error failure, files) => (.error failure, store, files)
  | (.ok (), files) =>
      match writeText disk path draft.content files with
      | (.error failure, files) => (.error failure, store, files)
      | (.ok (), files) =>
          let url := pageUrl store.baseUrl draft.key
          let store :=
            { store with index := store.index.put draft.key ⟨url, draft.order⟩ }
          match writeText disk (FilePath.join store.root indexFile)
              (PageRecord.indexText store.index) files with
          | (.error failure, files) => (.error failure, store, files)
          | (.ok (), files) => (.ok url, store, files)

/-- A disk store beside its disk, which holds the sources too. -/
def workspace (disk : Disk δ) : Workspace (DiskStore × δ) where
  readSource path := fun (_, files) =>
    (disk.read path files).mapError (Failure.read path)
  pages := fun (store, files) => (.ok store.pageIndex, (store, files))
  save draft := fun (store, files) => save disk draft store files

end DiskStore

end TagDoc
