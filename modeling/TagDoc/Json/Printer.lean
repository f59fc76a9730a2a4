import TagDoc.Json.Basic
import TagDoc.Decimal.Shortest

/-!
# Writing JSON text

Two layouts: the compact one without any white space, which default values
are shown in, and one with a member per line, which the page index is kept in.
Strings escape the quote, the backslash and the control characters below
U+0020, and nothing else.
-/

namespace TagDoc.Json

/-- Doubles are positional from `1e-5` up to, but not including, `1e16`. -/
def numberStyle : Decimal.NumberStyle := ⟨-5, 16⟩

def hexCharacter (value : Nat) : Char :=
  if value < 10 then Char.ofNat (48 + value) else Char.ofNat (87 + value)

/-- A character as it stands inside quotes. -/
def escape : Char → List Char
  | '"' => ['\\', '"']
  | '\\' => ['\\', '\\']
  | '\x08' => ['\\', 'b']
  | '\x0c' => ['\\', 'f']
  | '\n' => ['\\', 'n']
  | '\r' => ['\\', 'r']
  | '\t' => ['\\', 't']
  | character =>
      if character.toNat < 0x20 then
        ['\\', 'u', '0', '0', hexCharacter (character.toNat / 16),
          hexCharacter (character.toNat % 16)]
      else [character]

def quote (text : String) : String :=
  "\"" ++ String.ofList (text.toList.flatMap escape) ++ "\""

def Number.text : Number → String
  | .integer value => toString value
  | .double value => value.text numberStyle

mutual

def compact : Json → String
  | .null => "null"
  | .bool value => if value then "true" else "false"
  | .number value => value.text
  | .string text => quote text
  | .array items => "[" ++ String.intercalate "," (compactItems items) ++ "]"
  | .object members =>
      "\x7b" ++ String.intercalate "," (compactMembers members) ++ "\x7d"

def compactItems : List Json → List String
  | [] => []
  | item :: rest => item.compact :: compactItems rest

def compactMembers : List (String × Json) → List String
  | [] => []
  | (name, value) :: rest =>
      (quote name ++ ":" ++ value.compact) :: compactMembers rest

end

/-- A line break followed by two spaces for each level. -/
def newline (level : Nat) : String :=
  "\n" ++ String.ofList (List.replicate (2 * level) ' ')

/-- Entries one per line between brackets, or the bare brackets. -/
def layout (opening closing : String) (level : Nat) (entries : List String) :
    String :=
  if entries.isEmpty then opening ++ closing
  else
    opening ++ newline (level + 1) ++
      String.intercalate ("," ++ newline (level + 1)) entries ++
      newline level ++ closing

mutual

/-- The text of a value with one entry per line, `level` deep. -/
def pretty (level : Nat) : Json → String
  | .array items => layout "[" "]" level (prettyItems (level + 1) items)
  | .object members =>
      layout "\x7b" "\x7d" level (prettyMembers (level + 1) members)
  | .null => "null"
  | .bool value => if value then "true" else "false"
  | .number value => value.text
  | .string text => quote text

def prettyItems (level : Nat) : List Json → List String
  | [] => []
  | item :: rest => item.pretty level :: prettyItems level rest

def prettyMembers (level : Nat) : List (String × Json) → List String
  | [] => []
  | (name, value) :: rest =>
      (quote name ++ ": " ++ value.pretty level) :: prettyMembers level rest

end

end TagDoc.Json
