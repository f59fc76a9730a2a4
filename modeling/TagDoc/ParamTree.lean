import TagDoc.Finding
import TagDoc.ParamPath

/-!
# Trees of parameter annotations

The annotations of one comment form a tree: a node for each name that occurs
in a path, below the node of the name before it.  The nodes of one level are
sorted by name.  Only the first non-empty text that a parameter is given
counts; `ParamTree.annotate` reports the later ones, and the paths that are
malformed.
-/

namespace TagDoc

/-- What is known of one name: its description, and the names below it.  The
children are sorted by name. -/
structure ParamNode where
  description : Option String := none
  children : List (String × ParamNode) := []
deriving Repr

/-- Nodes by name, sorted by name. -/
abbrev ParamTree := List (String × ParamNode)

/-- The description, unless it is empty. -/
def ParamNode.text? (node : ParamNode) : Option String :=
  node.description.filter fun text => !text.isEmpty

namespace ParamTree

def get? (name : String) : ParamTree → Option ParamNode
  | [] => none
  | (key, node) :: rest => if key = name then some node else get? name rest

/-- Change the node under a name; a new name starts with an empty node at its
sorted place. -/
def alter (name : String) (change : ParamNode → ParamNode) :
    ParamTree → ParamTree
  | [] => [(name, change {})]
  | (key, node) :: rest =>
      if name < key then (name, change {}) :: (key, node) :: rest
      else if name = key then (key, change node) :: rest
      else (key, node) :: alter name change rest

def find? : List String → ParamTree → Option ParamNode
  | [], _ => none
  | [name], tree => get? name tree
  | name :: next :: rest, tree => do
      let node ← get? name tree
      find? (next :: rest) node.children

def text? (names : List String) (tree : ParamTree) : Option String :=
  (find? names tree).bind ParamNode.text?

/-- Set the description at the end of a sequence of names, with all nodes on
the way there. -/
def describe (text : String) : List String → ParamTree → ParamTree
  | [], tree => tree
  | [name], tree =>
      alter name (fun node => { node with description := some text }) tree
  | name :: next :: rest, tree =>
      alter name
        (fun node =>
          { node with children := describe text (next :: rest) node.children })
        tree

def annotate (unit : String) (tree : ParamTree) (path text : String) :
    Diagnosed ParamTree :=
  match ParamPath.parse? path with
  | none => ⟨tree, [.malformedPath path unit]⟩
  | some parsed =>
      if (text? parsed.names tree).isSome then
        ⟨tree, [.annotatedTwice path unit]⟩
      else ⟨describe text parsed.names tree, []⟩

def annotateAll (unit : String) :
    ParamTree → List (String × String) → Diagnosed ParamTree
  | tree, [] => pure tree
  | tree, (path, text) :: rest => do
      let tree ← annotate unit tree path text
      annotateAll unit tree rest

end ParamTree

end TagDoc
