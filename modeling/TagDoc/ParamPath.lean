/-!
# Parameter paths

An annotation names a parameter by a path: `user.address.city` goes through
object properties, `items[].id` through the elements of an array, and
`tags[]` is the array `tags` itself.  A name is a non-empty text without `.`
and without `[]`; a bracket alone may stand in it.

`ParamPath.parse?` reads a path and `ParamPath.render` writes one; the only
thing that reading forgets is a pair of brackets at the end.
-/

namespace TagDoc

/-- A step of a path towards a property. -/
inductive ParamPath.Step where
  /-- The property of an object. -/
  | field (name : String)
  /-- The property of each element of an array. -/
  | element (name : String)
deriving DecidableEq, Repr

def ParamPath.Step.name : ParamPath.Step → String
  | .field name => name
  | .element name => name

/-- The steps that lead to a parameter, and its own name. -/
structure ParamPath where
  parents : List ParamPath.Step
  leaf : String
deriving DecidableEq, Repr

namespace ParamPath

def names (path : ParamPath) : List String :=
  path.parents.map Step.name ++ [path.leaf]

/-- A path that ends with the name spelled in reverse, unless that is empty. -/
def ofLeaf? (name : List Char) : Option ParamPath :=
  if name.isEmpty then none else some ⟨[], String.ofList name.reverse⟩

/-- A path with a first step over the name spelled in reverse, unless that is
empty. -/
def under? (step : String → Step) (name : List Char)
    (path : Option ParamPath) : Option ParamPath :=
  if name.isEmpty then none
  else
    path.map fun path =>
      { path with
        parents := step (String.ofList name.reverse) :: path.parents }

/-- Read the rest of a path inside a name, whose characters so far are given
in reverse.  A name ends at `.` or at `[]`; after `[]` comes `.` or
nothing. -/
def parseFrom : List Char → List Char → Option ParamPath
  | name, [] => ofLeaf? name
  | name, '.' :: rest => under? .field name (parseFrom [] rest)
  | name, ['[', ']'] => ofLeaf? name
  | name, '[' :: ']' :: '.' :: rest => under? .element name (parseFrom [] rest)
  | _, '[' :: ']' :: _ => none
  | name, character :: rest => parseFrom (character :: name) rest

/-- The path that a text spells, unless it is malformed. -/
def parse? (text : String) : Option ParamPath :=
  parseFrom [] text.toList

def Step.render : Step → String
  | .field name => name ++ "."
  | .element name => name ++ "[]."

def render (path : ParamPath) : String :=
  String.join (path.parents.map Step.render) ++ path.leaf

end ParamPath

end TagDoc
