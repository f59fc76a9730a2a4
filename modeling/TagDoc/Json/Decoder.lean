import TagDoc.Json.Draft

/-!
# Decoding drafts into typed values

A decoder walks a draft in the order of its text and stops at the first fault,
so a value of the wrong kind is refused before any fault of form that comes
after it.  A record is decoded from an object by the names of its fields or
from an array by their order; fields that are not required keep the value they
start with.
-/

namespace TagDoc.Json

abbrev Decoder (α : Type) := Draft → Except Fault α

namespace Decoder

variable {α ρ : Type}

/-- Refuse a draft of the wrong kind.  A single value is read to its end
first; an array or object is refused where it begins. -/
def refuse : Decoder α
  | .broken asRead _ => .error asRead
  | .number none => .error .malformed
  | .string none => .error .malformed
  | _ => .error .mismatch

def text : Decoder String
  | .string (some text) => .ok text
  | other => refuse other

def flag : Decoder Bool
  | .bool value => .ok value
  | other => refuse other

/-- A natural number below `2 ^ 64`. -/
def count : Decoder Nat
  | .number (some (.integer value)) =>
      if 0 ≤ value then .ok value.toNat else .error .mismatch
  | other => refuse other

def value : Decoder Json := fun draft => do
  let value ← draft.read
  .ok value.merged

def optional (decoder : Decoder α) : Decoder (Option α)
  | .null => .ok none
  | other => do
      let value ← decoder other
      .ok (some value)

def items (decoder : Decoder α) : List Draft → Except Fault (List α)
  | [] => .ok []
  | item :: rest => do
      let value ← decoder item
      let values ← items decoder rest
      .ok (value :: values)

def list (decoder : Decoder α) : Decoder (List α)
  | .array level entries ending => do
      Draft.enter level
      let values ← items decoder entries
      ending.read
      .ok values
  | other => refuse other

/-- The decoded members, put one after the other. -/
def members (decoder : Decoder α) (entries : Assoc α) :
    List (Option String × Draft) → Except Fault (Assoc α)
  | [] => .ok entries
  | (none, _) :: _ => .error .malformed
  | (some name, member) :: rest => do
      let value ← decoder member
      members decoder (Assoc.put name value entries) rest

def assoc (decoder : Decoder α) : Decoder (Assoc α)
  | .object level entries ending => do
      Draft.enter level
      let values ← members decoder [] entries
      ending.read
      .ok values
  | other => refuse other

/-! ## Records -/

/-- What the formats that records are written in leave open: the fault of an
array with more items than the record has fields, if that is one, and which
drafts may stand where a case of a choice has nothing to carry. -/
structure Dialect where
  surplusFault : Option Fault
  carriesNothing : Draft → Bool

def Dialect.text : Dialect where
  surplusFault := some .malformed
  carriesNothing
    | .null => true
    | _ => false

def Dialect.value : Dialect :=
  { Dialect.text with surplusFault := some .mismatch }

/-- A field of a record: its name, whether it must be given, and how a draft
fills it. -/
structure Field (ρ : Type) where
  name : String
  required : Bool
  fill : Draft → ρ → Except Fault ρ

def Field.needed (name : String) (decoder : Decoder α) (set : α → ρ → ρ) :
    Field ρ :=
  { name, required := true
    fill := fun draft record => do
      let value ← decoder draft
      .ok (set value record) }

def Field.spare (name : String) (decoder : Decoder α) (set : α → ρ → ρ) :
    Field ρ :=
  { Field.needed name decoder set with required := false }

/-- Fill the fields of a record by the names of an object's members.  A name
that is no field is skipped, and a field may be given once only. -/
def recordMembers (fields : List (Field ρ)) (ending : Ending) :
    List String → ρ → List (Option String × Draft) → Except Fault ρ
  | given, record, [] => do
      ending.read
      if fields.any fun field => field.required && !given.contains field.name
      then .error .mismatch
      else .ok record
  | _, _, (none, _) :: _ => .error .malformed
  | given, record, (some name, member) :: rest =>
      match fields.find? fun field => field.name == name with
      | none => do
          member.skip
          recordMembers fields ending given record rest
      | some field =>
          if given.contains name then .error .mismatch
          else do
            let record ← field.fill member record
            recordMembers fields ending (name :: given) record rest

/-- Fill the fields of a record by the order of an array's items. -/
def recordItems (dialect : Dialect) (ending : Ending) :
    List (Field ρ) → ρ → List Draft → Except Fault ρ
  | [], record, [] => do
      ending.read
      .ok record
  | [], record, _ :: _ =>
      match dialect.surplusFault with
      | some fault => .error fault
      | none => .ok record
  | field :: fields, record, [] => do
      ending.read
      if (field :: fields).any Field.required then .error .mismatch
      else .ok record
  | field :: fields, record, item :: rest => do
      let record ← field.fill item record
      recordItems dialect ending fields record rest

/-- A record whose fields start with the values of `start`. -/
def record (dialect : Dialect) (fields : List (Field ρ)) (start : ρ) : Decoder ρ
  | .object level entries ending => do
      Draft.enter level
      recordMembers fields ending [] start entries
  | .array level entries ending => do
      Draft.enter level
      recordItems dialect ending fields start entries
  | other => refuse other

/-- One of several named cases that carry nothing: its name alone, or as the
only member of an object. -/
def choice (dialect : Dialect) (case? : String → Option α) : Decoder α
  | .string (some name) => (case? name).elim (.error .mismatch) .ok
  | .object _ [(some name, content)] .closed =>
      if dialect.carriesNothing content then
        (case? name).elim (.error .mismatch) .ok
      else .error .mismatch
  | other => refuse other

/-- A value that is read as a whole before it is looked at. -/
def whole (look? : Json → Option α) : Decoder α := fun draft => do
  let value ← draft.read
  (look? value).elim (.error .mismatch) .ok

end Decoder

end TagDoc.Json
