import TagDoc.ParamSchema
import TagDoc.ParamTree

/-!
# Types of declared parameters

A declared schema and the annotations below one name give the canonical type
that a page shows, and a detail section for every object with declared
properties.  The sections come parent first, named by their dotted path.
The elements of an array share its name and its annotations.  A property
without annotation is reported and gets a placeholder.
-/

namespace TagDoc

def missingPropertyText : String := "该参数缺少注释"

structure PropertyRow where
  name : String
  type : String
  description : String
deriving DecidableEq, Repr

/-- The properties of an object; the name is its dotted path. -/
structure DetailSection where
  name : String
  rows : List PropertyRow
deriving DecidableEq, Repr

/-- The canonical type of a parameter, and its detail sections. -/
structure ResolvedType where
  canonical : String
  details : List DetailSection
deriving DecidableEq, Repr

def DetailSection.title (detail : DetailSection) : String :=
  detail.name ++ "对象详解"

def PropertyRow.markdown (row : PropertyRow) : String :=
  "| " ++ row.name ++ " | " ++ row.type ++ " | " ++ row.description ++ " |\n"

def DetailSection.markdown (detail : DetailSection) : String :=
  "#### " ++ detail.title ++ "\n\n" ++
    "| 属性 | 类型 | 说明 |\n|:----|:-----|:-----|\n" ++
    String.join (detail.rows.map PropertyRow.markdown) ++ "\n"

namespace ResolvedType

def plain (canonical : String) : ResolvedType := ⟨canonical, []⟩

def arrayOf (items : ResolvedType) : ResolvedType :=
  { items with canonical := "[]" ++ items.canonical }

/-- The description of a property with the dotted path `name`. -/
def describe (unit name : String) (child : Option ParamNode) :
    Diagnosed String :=
  match child.bind ParamNode.text? with
  | some text => pure text
  | none => ⟨missingPropertyText, [.undocumentedProperty name unit]⟩

mutual

/-- The type of a schema under a name, with the annotations for it. -/
def resolve (unit name : String) (node : Option ParamNode) :
    ParamSchema → Diagnosed ResolvedType
  | .scalar type _ => pure (plain type)
  | .untypedArray _ => ⟨plain "[]any", [.untypedArray name unit]⟩
  | .array items _ => do
      let items ← resolve unit name node items
      pure items.arrayOf
  | .untypedObject _ => pure (plain "object")
  | .object properties _ => do
      let (rows, nested) ← resolveProperties unit name node properties
      pure ⟨"object", ⟨name, rows⟩ :: nested⟩

/-- The rows of properties, and the detail sections below them. -/
def resolveProperties (unit name : String) (node : Option ParamNode) :
    List (String × ParamSchema) →
      Diagnosed (List PropertyRow × List DetailSection)
  | [] => pure ([], [])
  | (key, schema) :: rest => do
      let path := name ++ "." ++ key
      let child := node.bind fun node => ParamTree.get? key node.children
      let description ← describe unit path child
      let type ← resolve unit (if schema.isCompound then path else key) child schema
      let (rows, nested) ← resolveProperties unit name node rest
      pure (⟨key, type.canonical, description⟩ :: rows, type.details ++ nested)

end

end ResolvedType

end TagDoc
