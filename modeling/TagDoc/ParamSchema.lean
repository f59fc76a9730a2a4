import TagDoc.Json.Decoder
import TagDoc.Json.Printer

/-!
# Declared parameter schemas

A parameter is declared by the bare name of its type, or by a descriptor: an
object with the type's name and what is known of the elements or properties.
Both come to the same few shapes, which `ParamSchema.ofJson?` reads.
-/

namespace TagDoc

/-- Whether a parameter may be left out, and what it is then. -/
structure Presence where
  optional : Bool := false
  default : Option Json := none
deriving Repr

/-- The declared schema of a parameter.  The elements of an array and the
properties of an object need not be declared; properties have distinct names,
in the order of declaration. -/
inductive ParamSchema where
  | scalar (type : String) (presence : Presence)
  | untypedArray (presence : Presence)
  | array (items : ParamSchema) (presence : Presence)
  | untypedObject (presence : Presence)
  | object (properties : List (String × ParamSchema)) (presence : Presence)
deriving Repr

instance : Inhabited ParamSchema := ⟨.scalar "" {}⟩

namespace ParamSchema

def presence : ParamSchema → Presence
  | .scalar _ presence | .untypedArray presence | .array _ presence
  | .untypedObject presence | .object _ presence => presence

/-- A parameter may be left out when it is marked so or has a default. -/
def isOptional (schema : ParamSchema) : Bool :=
  schema.presence.optional || schema.presence.default.isSome

/-- The default as compact JSON, `-` when there is none. -/
def defaultText (schema : ParamSchema) : String :=
  match schema.presence.default with
  | some value => value.compact
  | none => "-"

def isCompound : ParamSchema → Bool
  | .scalar .. => false
  | _ => true

def ofProperties (properties : List (String × ParamSchema)) : ParamSchema :=
  .object (Assoc.ofList properties) {}

/-- The schema of a type's name; elements and properties count only for the
types that have them. -/
def ofType (type : String) (items : Option ParamSchema)
    (properties : Option (Assoc ParamSchema)) (presence : Presence) :
    ParamSchema :=
  if type = "array" then
    match items with
    | some items => .array items presence
    | none => .untypedArray presence
  else if type = "object" then
    match properties with
    | some properties => .object properties presence
    | none => .untypedObject presence
  else .scalar type presence

/-! ## Reading declarations -/

structure Descriptor where
  type : Option String := none
  items : Option (Option ParamSchema) := none
  properties : Option (Option (Assoc ParamSchema)) := none
  optional : Option Bool := none
  default : Option (Option Json) := none

/-- The schema of a descriptor with a type. -/
def Descriptor.schema? (descriptor : Descriptor) : Option ParamSchema :=
  descriptor.type.map fun type =>
    ofType type (descriptor.items.getD none) (descriptor.properties.getD none)
      { optional := descriptor.optional.getD false
        default := descriptor.default.getD none }

/-- A member that is given for the first time. -/
def firstGiven {α : Type} (given : Option α) (value : Option α) :
    Option (Option α) :=
  match given, value with
  | none, some value => some (some value)
  | _, _ => none

def text? : Json → Option String
  | .string text => some text
  | _ => none

def flag? : Json → Option Bool
  | .bool value => some value
  | _ => none

/-- A default; `null` is none. -/
def default? : Json → Option Json
  | .null => none
  | value => some value.merged

/-- What a member declares that may be `null`, which declares nothing. -/
def orNull {α : Type} (value : Json) (declared : Option α) :
    Option (Option α) :=
  match value with
  | .null => some none
  | _ => declared.map some

mutual

/-- The schema that a value declares. -/
def ofJson? : Json → Option ParamSchema
  | .string type => some (ofType type none none {})
  | .object members => do
      let descriptor ← descriptorOf? members
      descriptor.schema?
  | _ => none

/-- The descriptor that members make.  A known member may be given once, and
its value must be well formed even where the type makes no use of it. -/
def descriptorOf? : List (String × Json) → Option Descriptor
  | [] => some {}
  | (name, value) :: rest => do
      let later ← descriptorOf? rest
      match name with
      | "type" =>
          let type ← firstGiven later.type (text? value)
          some { later with type }
      | "items" =>
          let items ← firstGiven later.items (orNull value (ofJson? value))
          some { later with items }
      | "properties" =>
          let properties ←
            firstGiven later.properties (orNull value (propertiesOf? value))
          some { later with properties }
      | "optional" =>
          let optional ← firstGiven later.optional (flag? value)
          some { later with optional }
      | "default" =>
          let default ← firstGiven later.default (some (default? value))
          some { later with default }
      | _ => some later

/-- The schemas of a `properties` member. -/
def propertiesOf? : Json → Option (Assoc ParamSchema)
  | .object members => (schemasOf? members).map Assoc.ofList
  | _ => none

def schemasOf? : List (String × Json) → Option (List (String × ParamSchema))
  | [] => some []
  | (name, value) :: rest => do
      let schema ← ofJson? value
      let schemas ← schemasOf? rest
      some ((name, schema) :: schemas)

end

/-- Read a declared schema from a draft, which is read as a whole first. -/
def decoder : Json.Decoder ParamSchema :=
  Json.Decoder.whole ofJson?

end ParamSchema

end TagDoc
