import TagDoc.Failure
import TagDoc.PageKey

/-!
# What passes work on

A pass reads handler sources, asks for the page index and saves pages.  A
`Workspace` offers these three operations over states of a type `σ`; each may
fail, and saving may change what later operations give.  Passes are written
against this interface and hold for every workspace.
-/

namespace TagDoc

/-- A page to be saved: where, what, and at which place among its
neighbours it is shown. -/
structure PageDraft where
  directory : String
  name : String
  content : String
  order : Nat
deriving DecidableEq, Repr

def PageDraft.key (draft : PageDraft) : String :=
  pageKey draft.directory draft.name

/-- The operations of a pass on its surroundings. -/
structure Workspace (σ : Type) where
  /-- The text of the source at a path. -/
  readSource : String → σ → Except Failure String
  /-- The page index. -/
  pages : σ → Except Failure PageIndex × σ
  /-- Save a page and give its URL. -/
  save : PageDraft → σ → Except Failure String × σ

namespace Workspace

variable {σ : Type}

/-- What a workspace is made to fail at. -/
structure Outage where
  /-- The keys of pages that are not saved. -/
  refusedKeys : List String := []
  /-- Whether the page index is out of reach. -/
  offline : Bool := false

/-- The workspace with failures on demand; a refused operation changes
nothing. -/
def withOutage (space : Workspace σ) (outage : Outage) : Workspace σ :=
  { space with
    pages := fun state =>
      if outage.offline then
        (.error (.refused "page index unavailable" "offline"), state)
      else space.pages state
    save := fun draft state =>
      if outage.refusedKeys.contains draft.key then
        (.error (.refused ("save refused: " ++ draft.key) "disk full"), state)
      else space.save draft state }

end Workspace

end TagDoc
