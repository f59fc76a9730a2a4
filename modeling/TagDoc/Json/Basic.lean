import TagDoc.Assoc
import TagDoc.Decimal.Binary64

/-!
# JSON values

A number is an integer where the text gives one that fits 64 bits, and a
double otherwise.  An object is the list of its members as written, so a name
may occur twice; `Json.merged` is the value that such an object stands for:
the last of several values, at the place of the first.
-/

namespace TagDoc

inductive Json.Number where
  | integer (value : Int)
  | double (value : Decimal.Binary64)
deriving DecidableEq, Repr

inductive Json where
  | null
  | bool (value : Bool)
  | number (value : Json.Number)
  | string (text : String)
  | array (items : List Json)
  | object (members : List (String × Json))
deriving Repr

instance : Inhabited Json := ⟨.null⟩

namespace Json

mutual

/-- The value with every repeated member name resolved. -/
def merged : Json → Json
  | .null => .null
  | .bool value => .bool value
  | .number value => .number value
  | .string text => .string text
  | .array items => .array (mergedItems items)
  | .object members => .object (Assoc.ofList (mergedMembers members))

def mergedItems : List Json → List Json
  | [] => []
  | item :: rest => item.merged :: mergedItems rest

def mergedMembers : List (String × Json) → List (String × Json)
  | [] => []
  | (name, value) :: rest => (name, value.merged) :: mergedMembers rest

end

/-- The member of an object, `null` where there is none. -/
def member (name : String) : Json → Json
  | .object members => (Assoc.get? name members).getD .null
  | _ => .null

end Json

end TagDoc
