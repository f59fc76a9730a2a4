import TagDoc.Text

/-!
# Keys and URLs of pages

A page is known by the key made of its directory and its name.  The slashes
around either part do not count.  A key gives the URL: below a base URL if
there is one, and the relative path of the page's file otherwise.
-/

namespace TagDoc

/-- The key of the page `name` in the directory `directory`. -/
def pageKey (directory name : String) : String :=
  let directory := Text.stripChar '/' directory
  let name := Text.stripChar '/' name
  if directory.isEmpty then name else directory ++ "/" ++ name

/-- The URL of the page with a key. -/
def pageUrl (baseUrl : Option String) (key : String) : String :=
  match baseUrl with
  | some base => Text.stripCharEnd '/' base ++ "/" ++ key
  | none => key ++ ".md"

/-- URLs by page key. -/
abbrev PageIndex := List (String × String)

end TagDoc
