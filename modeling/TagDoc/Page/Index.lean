import TagDoc.Assoc
import TagDoc.Finding
import TagDoc.Page

/-!
# The index page of a pass

The index has a table for every canonical group that has entries, in canonical
order, each sorted by name.  What no table can hold is reported: the groups
outside the canonical list, and descriptions that entries of different names
share.
-/

namespace TagDoc

/-- The group of units that name none. -/
def defaultGroup : String := "其他"

/-- A documented unit as the index lists it. -/
structure IndexEntry where
  name : String
  group : String
  description : String
  url : String
deriving DecidableEq, Repr

namespace IndexPage

def row (entry : IndexEntry) : String :=
  "| [" ++ entry.name ++ "](" ++ entry.url ++ ") | " ++ entry.description ++
    " |"

/-- The entries of a group, sorted by name; entries of one name keep their
order. -/
def members (group : String) (entries : List IndexEntry) : List IndexEntry :=
  (entries.filter fun entry => entry.group = group).mergeSort
    fun left right => !(right.name < left.name)

def groupSection (nameHeader : String) (entries : List IndexEntry)
    (group : String) : Option Section :=
  match members group entries with
  | [] => none
  | rows =>
      some ((Section.titled 3 group).lines
        (("| " ++ nameHeader ++ " | 注释 |") :: "|:---|:---|" :: rows.map row))

/-- The names of the entries in each group outside `groups`, in order. -/
def unindexed (groups : List String) (entries : List IndexEntry) :
    Assoc (List String) :=
  entries.foldl
    (fun names entry =>
      if groups.contains entry.group then names
      else names.alter entry.group [] (· ++ [entry.name]))
    []

/-- The different names of the entries with each description; an empty
description is none. -/
def namesByDescription (entries : List IndexEntry) : Assoc (List String) :=
  entries.foldl
    (fun names entry =>
      if entry.description.isEmpty then names
      else
        names.alter entry.description [] fun known =>
          if known.contains entry.name then known else known ++ [entry.name])
    []

def findings (groups : List String) (entries : List IndexEntry) :
    List Finding :=
  ((unindexed groups entries).map fun (group, names) =>
    Finding.unindexedGroup group names) ++
    (namesByDescription entries).filterMap fun (description, names) =>
      if 1 < names.length then some (.sharedDescription description names)
      else none

end IndexPage

/-- The index page of entries over the canonical groups; `nameHeader` heads
the column of names. -/
def Page.ofIndex (nameHeader : String) (groups : List String)
    (entries : List IndexEntry) : Diagnosed Page :=
  { value :=
      { sections :=
          groups.filterMap (IndexPage.groupSection nameHeader entries) }
    findings := IndexPage.findings groups entries }

end TagDoc
