import TagDoc.Json.Draft

/-!
# Strings, numbers and dates of TOML

Each function takes the scalar at the start of a text and gives what it means
and the remaining characters.  What a scalar means is a `Json.Draft`, so that
typed values are decoded in one way from all formats: a date is an object with
one member that no configuration uses, and a number beyond the doubles is
absent.
-/

namespace TagDoc.Toml

open Json (Draft)

/-- What a part of a text means, and the characters after it. -/
abbrev Scanned (α : Type) := α × List Char

/-- A character of comments and strings: a tabulator, or any character that is
no control character of ASCII. -/
def isPlain (character : Char) : Bool :=
  character == '\t' ||
    (0x20 ≤ character.toNat && character.toNat != 0x7F)

/-! ## Strings -/

def escapedPoint? (digits : List Char) : Option Char := do
  let point ← Json.hexValue? digits
  if point < 0xD800 || (0xDFFF < point && point ≤ 0x10FFFF) then
    some (Char.ofNat point)
  else none

/-- The character of a one-letter escape. -/
def escaped? : Char → Option Char
  | 'b' => some '\x08'
  | 'f' => some '\x0c'
  | 'n' => some '\n'
  | 'r' => some '\r'
  | 't' => some '\t'
  | '"' => some '"'
  | '\\' => some '\\'
  | _ => none

def basicFrom (done : List Char) : List Char → Option (Scanned String)
  | [] => none
  | '"' :: rest => some (String.ofList done.reverse, rest)
  | '\\' :: 'u' :: a :: b :: c :: d :: rest =>
      match escapedPoint? [a, b, c, d] with
      | some character => basicFrom (character :: done) rest
      | none => none
  | '\\' :: 'U' :: a :: b :: c :: d :: e :: f :: g :: h :: rest =>
      match escapedPoint? [a, b, c, d, e, f, g, h] with
      | some character => basicFrom (character :: done) rest
      | none => none
  | '\\' :: letter :: rest =>
      match escaped? letter with
      | some character => basicFrom (character :: done) rest
      | none => none
  | character :: rest =>
      if isPlain character && character != '\\' then
        basicFrom (character :: done) rest
      else none

def startsLine : List Char → Bool
  | '\n' :: _ => true
  | '\r' :: '\n' :: _ => true
  | _ => false

/-- Up to two quotes directly before three closing ones belong to the
string. -/
def closeQuotes (quote : Char) (done : List Char) : List Char → Option (Scanned String)
  | first :: second :: rest =>
      if first == quote && second == quote then
        some (String.ofList (quote :: quote :: done).reverse, rest)
      else if first == quote then
        some (String.ofList (quote :: done).reverse, second :: rest)
      else some (String.ofList done.reverse, first :: second :: rest)
  | [only] =>
      if only == quote then some (String.ofList (quote :: done).reverse, [])
      else some (String.ofList done.reverse, [only])
  | [] => some (String.ofList done.reverse, [])

/-- The rest of a basic string over several lines, the characters so far in
reverse.  After a backslash at the end of a line all blanks and line breaks
are skipped. -/
def basicLinesFrom (skipping : Bool) (done : List Char) :
    List Char → Option (Scanned String)
  | [] => none
  | '"' :: '"' :: '"' :: rest => closeQuotes '"' done rest
  | '\n' :: rest =>
      if skipping then basicLinesFrom true done rest
      else basicLinesFrom false ('\n' :: done) rest
  | '\r' :: '\n' :: rest =>
      if skipping then basicLinesFrom true done rest
      else basicLinesFrom false ('\n' :: done) rest
  | '\\' :: 'u' :: a :: b :: c :: d :: rest =>
      match escapedPoint? [a, b, c, d] with
      | some character => basicLinesFrom false (character :: done) rest
      | none => none
  | '\\' :: 'U' :: a :: b :: c :: d :: e :: f :: g :: h :: rest =>
      match escapedPoint? [a, b, c, d, e, f, g, h] with
      | some character => basicLinesFrom false (character :: done) rest
      | none => none
  | '\\' :: letter :: rest =>
      match escaped? letter with
      | some character => basicLinesFrom false (character :: done) rest
      | none =>
          if startsLine ((letter :: rest).dropWhile Text.isBlank) then
            basicLinesFrom true done rest
          else none
  | character :: rest =>
      if skipping && Text.isBlank character then basicLinesFrom true done rest
      else if isPlain character && character != '\\' then
        basicLinesFrom false (character :: done) rest
      else none

def literal (text : List Char) : Option (Scanned String) :=
  match Text.splitAtFirst (· == '\'') text with
  | some (inner, rest) =>
      if inner.all isPlain then some (String.ofList inner, rest) else none
  | none => none

/-- The rest of a literal string over several lines, the characters so far in
reverse. -/
def literalLinesFrom (done : List Char) : List Char → Option (Scanned String)
  | [] => none
  | '\'' :: '\'' :: '\'' :: rest => closeQuotes '\'' done rest
  | '\n' :: rest => literalLinesFrom ('\n' :: done) rest
  | '\r' :: '\n' :: rest => literalLinesFrom ('\n' :: done) rest
  | character :: rest =>
      if isPlain character then literalLinesFrom (character :: done) rest
      else none

def dropLineBreak : List Char → List Char
  | '\n' :: rest => rest
  | '\r' :: '\n' :: rest => rest
  | text => text

def scanString : List Char → Option (Scanned String)
  | '"' :: '"' :: '"' :: rest => basicLinesFrom false [] (dropLineBreak rest)
  | '"' :: rest => basicFrom [] rest
  | '\'' :: '\'' :: '\'' :: rest => literalLinesFrom [] (dropLineBreak rest)
  | '\'' :: rest => literal rest
  | _ => none

/-! ## Numbers -/

/-- More digits, single underscores between them. -/
def moreDigits (digit? : Char → Option Nat) : List Char → Option (Scanned (List Nat))
  | '_' :: next :: rest => do
      let value ← digit? next
      let (values, rest) ← moreDigits digit? rest
      some (value :: values, rest)
  | ['_'] => none
  | next :: rest =>
      match digit? next with
      | some value => do
          let (values, rest) ← moreDigits digit? rest
          some (value :: values, rest)
      | none => some ([], next :: rest)
  | [] => some ([], [])

def digits (digit? : Char → Option Nat) : List Char → Option (Scanned (List Nat))
  | first :: rest => do
      let value ← digit? first
      let (values, rest) ← moreDigits digit? rest
      some (value :: values, rest)
  | [] => none

def digitBelow? (base : Nat) (character : Char) : Option Nat :=
  (Json.hexDigit? character).filter (· < base)

def ofDigits (base : Nat) (digits : List Nat) : Nat :=
  digits.foldl (fun value digit => value * base + digit) 0

/-- An integer, if 64 bits hold it. -/
def integer? (value : Int) : Option Draft :=
  if -(Nat.pow 2 63 : Int) ≤ value && value < (Nat.pow 2 63 : Int) then
    some (.number (some (.integer value)))
  else none

/-- An integer in another base after its two marking characters. -/
def basedInteger (base : Nat) (text : List Char) : Option (Scanned Draft) := do
  let (values, rest) ← digits (digitBelow? base) text
  let value ← integer? (ofDigits base values)
  some (value, rest)

def takeSign : List Char → Bool × List Char
  | '-' :: rest => (true, rest)
  | '+' :: rest => (false, rest)
  | text => (false, text)

/-- The whole digits of a number: a leading zero stands alone. -/
def wholeDigits : List Char → Option (Scanned (List Nat))
  | '0' :: rest => some ([0], rest)
  | text => digits (digitBelow? 10) text

/-- The double that decimal digits and a power of ten make; absent beyond the
doubles. -/
def double? (negative : Bool) (values : List Nat) (exponent : Int) :
    Option Json.Number :=
  let values := values.dropWhile (· == 0)
  let top : Int := values.length + exponent
  let size := ofDigits 10 values
  if size = 0 || top < -400 then some (.double (.zero negative))
  else if 310 < top then none
  else
    (Decimal.Binary64.ofQuotient? negative (size * Nat.pow 10 exponent.toNat)
      (Nat.pow 10 (-exponent).toNat)).map .double

/-- A double; one that is too large is refused, one that is too small an
infinity. -/
def float? (negative : Bool) (values : List Nat) (exponent : Int) :
    Option Draft :=
  match double? negative values exponent with
  | some value => some (.number (some value))
  | none => if negative then some (.number none) else none

def scanExponent : List Char → Option (Scanned (Option Int))
  | mark :: rest =>
      if mark == 'e' || mark == 'E' then do
        let (negative, rest) := takeSign rest
        let (values, rest) ← digits (digitBelow? 10) rest
        let size : Int := ofDigits 10 values
        some (some (if negative then -size else size), rest)
      else some (none, mark :: rest)
  | [] => some (none, [])

def finishNumber (negative : Bool) (whole : List Nat) :
    List Char → Option (Scanned Draft)
  | '.' :: rest => do
      let (fraction, rest) ← digits (digitBelow? 10) rest
      let (exponent, rest) ← scanExponent rest
      let value ← float? negative (whole ++ fraction)
        (exponent.getD 0 - fraction.length)
      some (value, rest)
  | rest => do
      let (exponent, rest) ← scanExponent rest
      match exponent with
      | some exponent =>
          let value ← float? negative whole exponent
          some (value, rest)
      | none =>
          let size : Int := ofDigits 10 whole
          let value ← integer? (if negative then -size else size)
          some (value, rest)

/-- A decimal number, infinity or what is not a number. -/
def scanDecimal (text : List Char) : Option (Scanned Draft) :=
  match takeSign text with
  | (_, 'i' :: 'n' :: 'f' :: rest) => some (.number none, rest)
  | (_, 'n' :: 'a' :: 'n' :: rest) => some (.number none, rest)
  | (negative, text) => do
      let (whole, rest) ← wholeDigits text
      finishNumber negative whole rest

def scanNumber : List Char → Option (Scanned Draft)
  | '0' :: 'x' :: rest => basedInteger 16 rest
  | '0' :: 'o' :: rest => basedInteger 8 rest
  | '0' :: 'b' :: rest => basedInteger 2 rest
  | text => scanDecimal text

/-! ## Dates -/

def twoDigits? (tens ones : Char) : Option Nat := do
  let tens ← digitBelow? 10 tens
  let ones ← digitBelow? 10 ones
  some (tens * 10 + ones)

def daysOf (year month : Nat) : Nat :=
  if month = 2 then
    if year % 4 = 0 ∧ (year % 100 ≠ 0 ∨ year % 400 = 0) then 29 else 28
  else if month ∈ [4, 6, 9, 11] then 30
  else 31

def afterDate? : List Char → Option (List Char)
  | a :: b :: c :: d :: '-' :: e :: f :: '-' :: g :: h :: rest => do
      let century ← twoDigits? a b
      let year ← twoDigits? c d
      let month ← twoDigits? e f
      let day ← twoDigits? g h
      if 1 ≤ month ∧ month ≤ 12 ∧ 1 ≤ day ∧
          day ≤ daysOf (century * 100 + year) month then some rest
      else none
  | _ => none

def afterFraction : List Char → List Char
  | '.' :: digit :: rest =>
      if Text.isDigit digit then rest.dropWhile Text.isDigit
      else '.' :: digit :: rest
  | text => text

def afterTime? : List Char → Option (List Char)
  | a :: b :: ':' :: c :: d :: ':' :: e :: f :: rest => do
      let hour ← twoDigits? a b
      let minute ← twoDigits? c d
      let second ← twoDigits? e f
      if hour ≤ 23 ∧ minute ≤ 59 ∧ second ≤ 60 then some (afterFraction rest)
      else none
  | _ => none

/-- The characters after the offset from universal time at the start of a
text, if there is one. -/
def afterOffset : List Char → List Char
  | 'Z' :: rest => rest
  | 'z' :: rest => rest
  | sign :: a :: b :: ':' :: c :: d :: rest =>
      match twoDigits? a b, twoDigits? c d with
      | some hour, some minute =>
          if (sign == '+' || sign == '-') && hour ≤ 23 && minute ≤ 59 then rest
          else sign :: a :: b :: ':' :: c :: d :: rest
      | _, _ => sign :: a :: b :: ':' :: c :: d :: rest
  | text => text

def afterMoment? (text : List Char) : Option (List Char) :=
  match afterDate? text with
  | some (mark :: rest) =>
      if mark == 'T' || mark == 't' || mark == ' ' then
        match afterTime? rest with
        | some rest => some (afterOffset rest)
        | none => some (mark :: rest)
      else some (mark :: rest)
  | some [] => some []
  | none => afterTime? text

def scanMoment (text : List Char) : Option (Scanned Draft) := do
  let rest ← afterMoment? text
  let spelled := text.take (text.length - rest.length)
  some
    (.object 0
      [(some "$__toml_private_datetime",
        .string (some (String.ofList spelled)))]
      .closed,
      rest)

end TagDoc.Toml
