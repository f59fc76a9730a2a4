import TagDoc.Assoc
import TagDoc.Disk
import TagDoc.Workspace

/-!
# Pages in memory

A memory store keeps the pages it is given.  Dry runs publish into one.
-/

namespace TagDoc

structure StoredPage where
  content : String
  order : Nat
  url : String
deriving DecidableEq, Repr

/-- Pages by key, in the order of their first saving. -/
structure MemoryStore where
  baseUrl : Option String := none
  pages : Assoc StoredPage := []
deriving DecidableEq, Repr

namespace MemoryStore

/-- The store with a page that was published elsewhere. -/
def withPage (store : MemoryStore) (key url : String) : MemoryStore :=
  { store with pages := store.pages.put key ⟨"", 0, url⟩ }

def index (store : MemoryStore) : PageIndex :=
  store.pages.map fun (key, page) => (key, page.url)

/-- Save a page and give its URL. -/
def save (draft : PageDraft) (store : MemoryStore) : String × MemoryStore :=
  let url := pageUrl store.baseUrl draft.key
  (url,
    { store with
      pages := store.pages.put draft.key ⟨draft.content, draft.order, url⟩ })

/-- A memory store beside the disk that holds the sources. -/
def workspace {δ : Type} (disk : Disk δ) : Workspace (MemoryStore × δ) where
  readSource path := fun (_, files) =>
    (disk.read path files).mapError (Failure.read path)
  pages := fun (store, files) => (.ok store.index, (store, files))
  save draft := fun (store, files) =>
    let (url, store) := store.save draft
    (.ok url, (store, files))

end MemoryStore

end TagDoc
