import TagDoc.Json.Number
import TagDoc.Text

/-!
# Reading JSON text

Registries are decoded while they are read: of several faults in a text the
first one counts, be it in the text's form or in its meaning.  A `Draft` is
what a text says as far as it can be made out, with the faults of its form at
the places where a reader meets them.  A value that is not asked for is only
skipped, which overlooks some faults: numbers that are too large, halves of
surrogate pairs that stand alone, and deep nesting.

`Draft.ofText` reads a text, `Draft.read` makes a value of a draft,
`Draft.skip` passes over it, and `Json.draft` is the draft of a value, which
has no faults.
-/

namespace TagDoc

/-- Why a text or value is refused: its form is wrong, it ends too early, or
it means something else than asked for. -/
inductive Fault where
  | malformed
  | truncated
  | mismatch
deriving DecidableEq, Repr

namespace Json

/-- How the members of an array or object end. -/
inductive Ending where
  | closed
  | broken (asRead asSkipped : Fault)
deriving DecidableEq, Repr

/-- What a JSON text says, as far as it can be made out.  A number is absent
where it is beyond the doubles, a string or member name where it holds half of
a surrogate pair.  `level` counts the arrays and objects around one. -/
inductive Draft where
  | null
  | bool (value : Bool)
  | number (value : Option Number)
  | string (text : Option String)
  | array (level : Nat) (items : List Draft) (ending : Ending)
  | object (level : Nat) (members : List (Option String × Draft))
      (ending : Ending)
  | broken (asRead asSkipped : Fault)

/-- A text's draft, and whether anything but white space follows it. -/
structure Document where
  root : Draft
  surplus : Bool

/-! ## Reading and skipping drafts -/

/-- The number of arrays and objects that may stand around one that is
read. -/
def Draft.depthLimit : Nat := 127

def Ending.read : Ending → Except Fault Unit
  | .closed => .ok ()
  | .broken asRead _ => .error asRead

def Ending.skip : Ending → Except Fault Unit
  | .closed => .ok ()
  | .broken _ asSkipped => .error asSkipped

def Draft.enter (level : Nat) : Except Fault Unit :=
  if level < Draft.depthLimit then .ok () else .error .malformed

mutual

def Draft.read : Draft → Except Fault Json
  | .null => .ok .null
  | .bool value => .ok (.bool value)
  | .number (some value) => .ok (.number value)
  | .number none => .error .malformed
  | .string (some text) => .ok (.string text)
  | .string none => .error .malformed
  | .array level items ending => do
      Draft.enter level
      let items ← Draft.readItems items
      ending.read
      .ok (.array items)
  | .object level members ending => do
      Draft.enter level
      let members ← Draft.readMembers members
      ending.read
      .ok (.object members)
  | .broken asRead _ => .error asRead

def Draft.readItems : List Draft → Except Fault (List Json)
  | [] => .ok []
  | item :: rest => do
      let value ← item.read
      let values ← Draft.readItems rest
      .ok (value :: values)

def Draft.readMembers :
    List (Option String × Draft) → Except Fault (List (String × Json))
  | [] => .ok []
  | (none, _) :: _ => .error .malformed
  | (some name, member) :: rest => do
      let value ← member.read
      let values ← Draft.readMembers rest
      .ok ((name, value) :: values)

end

mutual

def Draft.skip : Draft → Except Fault Unit
  | .array _ items ending => do
      Draft.skipItems items
      ending.skip
  | .object _ members ending => do
      Draft.skipMembers members
      ending.skip
  | .broken _ asSkipped => .error asSkipped
  | .null | .bool _ | .number _ | .string _ => .ok ()

def Draft.skipItems : List Draft → Except Fault Unit
  | [] => .ok ()
  | item :: rest => do
      item.skip
      Draft.skipItems rest

def Draft.skipMembers : List (Option String × Draft) → Except Fault Unit
  | [] => .ok ()
  | (_, member) :: rest => do
      member.skip
      Draft.skipMembers rest

end

mutual

def draft : Json → Draft
  | .null => .null
  | .bool value => .bool value
  | .number value => .number (some value)
  | .string text => .string (some text)
  | .array items => .array 0 (draftItems items) .closed
  | .object members => .object 0 (draftMembers members) .closed

def draftItems : List Json → List Draft
  | [] => []
  | item :: rest => item.draft :: draftItems rest

def draftMembers : List (String × Json) → List (Option String × Draft)
  | [] => []
  | (name, value) :: rest => (some name, value.draft) :: draftMembers rest

end

/-! ## From characters to drafts -/

def isGap (character : Char) : Bool :=
  character == ' ' || character == '\t' || character == '\n' ||
    character == '\r'

/-- A fault that shows alike to a reader and to one who skips. -/
def Draft.fault (fault : Fault) : Draft :=
  .broken fault fault

def hexDigit? (character : Char) : Option Nat :=
  let point := character.toNat
  if '0' ≤ character && character ≤ '9' then some (point - 48)
  else if 'a' ≤ character && character ≤ 'f' then some (point - 87)
  else if 'A' ≤ character && character ≤ 'F' then some (point - 55)
  else none

def hexValue? (digits : List Char) : Option Nat :=
  digits.foldlM (fun value digit => (hexDigit? digit).map (value * 16 + ·)) 0

/-- The characters of a string so far, in reverse.  `high` is the first half
of a surrogate pair that waits for the second; `sound` is lost when a half
stands alone. -/
structure Spelling where
  text : List Char
  high : Option Nat
  sound : Bool

namespace Spelling

def empty : Spelling := ⟨[], none, true⟩

def push (spelling : Spelling) (character : Char) : Spelling :=
  ⟨character :: spelling.text, none, spelling.sound && spelling.high.isNone⟩

def pushUnit (spelling : Spelling) (unit : Nat) : Spelling :=
  match spelling.high with
  | some high =>
      if 0xDC00 ≤ unit && unit ≤ 0xDFFF then
        let point := 0x10000 + (high - 0xD800) * 0x400 + (unit - 0xDC00)
        ⟨Char.ofNat point :: spelling.text, none, spelling.sound⟩
      else ⟨spelling.text, none, false⟩
  | none =>
      if 0xD800 ≤ unit && unit ≤ 0xDBFF then
        ⟨spelling.text, some unit, spelling.sound⟩
      else if 0xDC00 ≤ unit && unit ≤ 0xDFFF then
        ⟨spelling.text, none, false⟩
      else spelling.push (Char.ofNat unit)

def text? (spelling : Spelling) : Option String :=
  if spelling.sound && spelling.high.isNone then
    some (String.ofList spelling.text.reverse)
  else none

/-- The end of the text inside a string: a reader has already stumbled over a
half that stands alone. -/
def cut (spelling : Spelling) : Ending :=
  .broken (if spelling.sound then .truncated else .malformed) .truncated

end Spelling

/-- A string after its opening quote: the spelled text and the remaining
characters, or the fault that ends it. -/
inductive StringScan where
  | closed (text : Option String) (rest : List Char)
  | broken (ending : Ending)

/-- The character of a one-letter escape. -/
def escaped? : Char → Option Char
  | '"' => some '"'
  | '\\' => some '\\'
  | '/' => some '/'
  | 'b' => some '\x08'
  | 'f' => some '\x0c'
  | 'n' => some '\n'
  | 'r' => some '\r'
  | 't' => some '\t'
  | _ => none

def StringScan.malformed : StringScan :=
  .broken (.broken .malformed .malformed)

def scanString : Spelling → List Char → StringScan
  | spelling, [] => .broken spelling.cut
  | spelling, '"' :: rest => .closed spelling.text? rest
  | spelling, ['\\'] => .broken spelling.cut
  | spelling, '\\' :: 'u' :: a :: b :: c :: d :: rest =>
      match hexValue? [a, b, c, d] with
      | some unit => scanString (spelling.pushUnit unit) rest
      | none => .malformed
  | spelling, '\\' :: 'u' :: rest =>
      if (String.ofList rest).utf8ByteSize < 4 then .broken spelling.cut
      else .malformed
  | spelling, '\\' :: letter :: rest =>
      match escaped? letter with
      | some character => scanString (spelling.push character) rest
      | none => .malformed
  | spelling, character :: rest =>
      if character.toNat < 0x20 then .malformed
      else scanString (spelling.push character) rest

/-- The fault of a number that lacks a digit: one who skips never calls it an
early end. -/
def missingDigit (rest : List Char) : Draft × List Char :=
  (.broken (if rest.isEmpty then .truncated else .malformed) .malformed, [])

def spanDigits (text : List Char) : List Nat × List Char :=
  ((text.takeWhile Text.isDigit).map (·.toNat - 48),
    text.dropWhile Text.isDigit)

def scanExponent (numeral : Numeral) : List Char → Draft × List Char
  | mark :: rest =>
      if mark == 'e' || mark == 'E' then
        let (negative, rest) :=
          match rest with
          | '+' :: rest => (false, rest)
          | '-' :: rest => (true, rest)
          | rest => (false, rest)
        let (digits, after) := spanDigits rest
        if digits.isEmpty then missingDigit after
        else
          (.number { numeral with exponent := some ⟨negative, digits⟩ }.value?,
            after)
      else (.number numeral.value?, mark :: rest)
  | [] => (.number numeral.value?, [])

/-- Finish a number after its whole digits. -/
def scanFraction (negative : Bool) (whole : List Nat) :
    List Char → Draft × List Char
  | '.' :: rest =>
      let (digits, after) := spanDigits rest
      if digits.isEmpty then missingDigit after
      else scanExponent ⟨negative, whole, some digits, none⟩ after
  | rest => scanExponent ⟨negative, whole, none, none⟩ rest

/-- Read the digits of a number.  A leading zero stands alone. -/
def scanDigits (negative : Bool) (text : List Char) : Draft × List Char :=
  match spanDigits text with
  | ([], rest) => missingDigit rest
  | (0 :: _ :: _, _) => (Draft.fault .malformed, [])
  | (digits, rest) => scanFraction negative digits rest

def scanWord (value : Draft) : List Char → List Char → Draft × List Char
  | [], rest => (value, rest)
  | _ :: _, [] => (Draft.fault .truncated, [])
  | letter :: word, character :: rest =>
      if character = letter then scanWord value word rest
      else (Draft.fault .malformed, [])

mutual

/-- Read a value with `level` arrays and objects around it. -/
def scanValue : Nat → Nat → List Char → Draft × List Char
  | 0, _, _ => (Draft.fault .malformed, [])
  | fuel + 1, level, text =>
      match text.dropWhile isGap with
      | [] => (Draft.fault .truncated, [])
      | 'n' :: rest => scanWord .null ['u', 'l', 'l'] rest
      | 't' :: rest => scanWord (.bool true) ['r', 'u', 'e'] rest
      | 'f' :: rest => scanWord (.bool false) ['a', 'l', 's', 'e'] rest
      | '"' :: rest =>
          match scanString .empty rest with
          | .closed text rest => (.string text, rest)
          | .broken (.broken asRead asSkipped) =>
              (.broken asRead asSkipped, [])
          | .broken .closed => (Draft.fault .malformed, [])
      | '[' :: rest =>
          let (items, ending, rest) := scanItems fuel level true rest
          (.array level items ending, rest)
      | '{' :: rest =>
          let (members, ending, rest) := scanMembers fuel level true rest
          (.object level members ending, rest)
      | '-' :: rest => scanDigits true rest
      | character :: rest =>
          if Text.isDigit character then scanDigits false (character :: rest)
          else (Draft.fault .malformed, [])

/-- Read the items of an array up to its end.  After a comma an item must
follow. -/
def scanItems :
    Nat → Nat → Bool → List Char → List Draft × Ending × List Char
  | 0, _, _, _ => ([], .broken .malformed .malformed, [])
  | fuel + 1, level, first, text =>
      match text.dropWhile isGap with
      | [] => ([], .broken .truncated .truncated, [])
      | ']' :: rest => ([], .closed, rest)
      | character :: rest =>
          if first || character == ',' then
            let text := if first then character :: rest else rest
            let (item, rest) := scanValue fuel (level + 1) text
            let (items, ending, rest) := scanItems fuel level false rest
            (item :: items, ending, rest)
          else ([], .broken .malformed .malformed, [])

/-- Read the members of an object up to its end.  After a comma a name must
follow. -/
def scanMembers :
    Nat → Nat → Bool → List Char →
      List (Option String × Draft) × Ending × List Char
  | 0, _, _, _ => ([], .broken .malformed .malformed, [])
  | fuel + 1, level, first, text =>
      match text.dropWhile isGap with
      | [] => ([], .broken .truncated .truncated, [])
      | '}' :: rest => ([], .closed, rest)
      | character :: rest =>
          if first || character == ',' then
            let text := if first then character :: rest else rest
            match text.dropWhile isGap with
            | [] => ([], .broken .truncated .truncated, [])
            | '"' :: rest =>
                match scanString .empty rest with
                | .broken ending => ([], ending, [])
                | .closed name rest =>
                    let (member, rest) :=
                      match rest.dropWhile isGap with
                      | [] => (Draft.fault .truncated, [])
                      | ':' :: rest => scanValue fuel (level + 1) rest
                      | _ => (Draft.fault .malformed, [])
                    let (members, ending, rest) :=
                      scanMembers fuel level false rest
                    ((name, member) :: members, ending, rest)
            | _ => ([], .broken .malformed .malformed, [])
          else ([], .broken .malformed .malformed, [])

end

/-- The document that a text holds.  Each step of the reader but the last
takes a character, so twice their number of steps is enough. -/
def Document.ofText (text : String) : Document :=
  let characters := text.toList
  let (root, rest) := scanValue (2 * characters.length + 2) 0 characters
  ⟨root, !(rest.all isGap)⟩

/-- Decode a whole text: nothing may follow the value. -/
def Document.decode {α : Type} (decoder : Draft → Except Fault α)
    (document : Document) : Except Fault α := do
  let value ← decoder document.root
  if document.surplus then .error .malformed else .ok value

/-- The value of a text, repeated member names resolved. -/
def ofText (text : String) : Except Fault Json := do
  let value ← (Document.ofText text).decode Draft.read
  .ok value.merged

end Json

end TagDoc
