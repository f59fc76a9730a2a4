import TagDoc.Assoc
import TagDoc.Json.Draft

/-!
# The tables of a TOML document

A document is built statement by statement.  Its tables remember how they came
about: a table that only lies on the way to another one is implicit and may
still be given a header of its own, one that a dotted key made may only be
extended by dotted keys.  Every other repetition is refused.
-/

namespace TagDoc.Toml

open Json (Draft)

/-- What stands under a key while a document is read.  `implicit` marks a
table without statement of its own, `dotted` one that a dotted key made. -/
inductive Item where
  | leaf (value : Draft)
  | table (implicit dotted : Bool) (entries : List (String × Item))
  | tables (elements : List (List (String × Item)))

abbrev Entries := List (String × Item)

mutual

def Item.draft : Item → Draft
  | .leaf value => value
  | .table _ _ entries => .object 0 (Item.drafts entries) .closed
  | .tables elements => .array 0 (Item.elementDrafts elements) .closed

def Item.drafts : List (String × Item) → List (Option String × Draft)
  | [] => []
  | (key, item) :: rest => (some key, item.draft) :: Item.drafts rest

/-- The meanings of the tables of an array. -/
def Item.elementDrafts : List (List (String × Item)) → List Draft
  | [] => []
  | entries :: rest =>
      .object 0 (Item.drafts entries) .closed :: Item.elementDrafts rest

end

/-- Change the table at the end of a path.  Missing tables on the way are
made; an array of tables stands for its last element.  `change` learns whether
the table was made by a dotted key, as `here` says of the table at the
start. -/
def descend (dotted : Bool) (change : Bool → Entries → Option Entries)
    (here : Bool) : List String → Entries → Option Entries
  | [], entries => change here entries
  | key :: path, entries =>
      match Assoc.get? key entries with
      | none => do
          let inner ← descend dotted change dotted path []
          some (Assoc.put key (.table true dotted inner) entries)
      | some (.leaf _) => none
      | some (.table implicit made inner) =>
          if dotted && !implicit then none
          else do
            let inner ← descend dotted change made path inner
            some (Assoc.put key (.table implicit made inner) entries)
      | some (.tables elements) =>
          match elements.getLast? with
          | none => none
          | some last => do
              let last ← descend dotted change false path last
              some
                (Assoc.put key (.tables (elements.dropLast ++ [last])) entries)

/-- Put a value under a key that is new in the table at the end of a dotted
key.  A dotted key ends in a table that dotted keys made, a plain key in the
table where it stands. -/
def define (path : List String) (key : String) (value : Draft)
    (entries : Entries) : Option Entries :=
  descend true
    (fun made inner =>
      if made == path.isEmpty then none
      else
        match Assoc.get? key inner with
        | none => some (Assoc.put key (.leaf value) inner)
        | some _ => none)
    false path entries

/-- The state of a document that is being read: the tables that are complete,
the one under way, its header, and whether it is an element of an array. -/
structure Outline where
  root : Entries := []
  current : Entries := []
  path : List String := []
  key : Option String := none
  isElement : Bool := false

namespace Outline

def pushElement (key : String) (current entries : Entries) : Option Entries :=
  match Assoc.get? key entries with
  | none => some (Assoc.put key (.tables [current]) entries)
  | some (.tables elements) =>
      some (Assoc.put key (.tables (elements ++ [current])) entries)
  | some _ => none

/-- Put the table under way at its place. -/
def placeTable (key : String) (current entries : Entries) : Option Entries :=
  match Assoc.get? key entries with
  | none => some (Assoc.put key (.table false false current) entries)
  | some _ => none

def finish (outline : Outline) : Option Entries :=
  match outline.key with
  | none => some outline.current
  | some key =>
      let place := if outline.isElement then pushElement else placeTable
      descend false (fun _ entries => place key outline.current entries) false
        outline.path outline.root

/-- The table that a header takes over: none, or one that is implicit. -/
def takeOver (key : String) (entries : Entries) : Option Entries :=
  match Assoc.get? key entries with
  | none => some []
  | some (.table true false inner) => some inner
  | some _ => none

def reach (path : List String) (root : Entries) : Option Entries :=
  match path with
  | [] => some root
  | key :: path =>
      match Assoc.get? key root with
      | none => some []
      | some (.leaf _) => none
      | some (.table _ _ inner) => reach path inner
      | some (.tables elements) =>
          match elements.getLast? with
          | none => none
          | some last => reach path last

/-- Begin a table with a header.  A table that is taken over moves to the end
of its surroundings. -/
def beginTable (path : List String) (key : String) (outline : Outline) :
    Option Outline := do
  let root ← outline.finish
  let parent ← reach path root
  let current ← takeOver key parent
  let root ← descend false
    (fun _ entries => some (entries.filter fun entry => entry.1 != key))
    false path root
  some { root, current, path, key := some key }

def beginElement (path : List String) (key : String) (outline : Outline) :
    Option Outline := do
  let root ← outline.finish
  let root ← descend false
    (fun _ entries =>
      match Assoc.get? key entries with
      | none => some (Assoc.put key (.tables []) entries)
      | some (.tables _) => some entries
      | some _ => none)
    false path root
  some { root, current := [], path, key := some key, isElement := true }

/-- Put a value under a dotted key of the table under way. -/
def assign (path : List String) (key : String) (value : Draft)
    (outline : Outline) : Option Outline := do
  let current ← define path key value outline.current
  some { outline with current }

end Outline

end TagDoc.Toml
