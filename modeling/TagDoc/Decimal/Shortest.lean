import TagDoc.Decimal.Binary64

/-!
# The shortest decimal that reads back

Among the decimals that round to a given double, the shortest ones are those
on the coarsest decimal grid that has a point in the rounding interval, and of
these the nearest to the double is taken.  If a grid has a point in the
interval, one of the double's two neighbours on that grid lies in it, so only
these two are tried, for one digit, then two, and so on; seventeen digits
always suffice.
-/

namespace TagDoc.Decimal

/-- A decimal `digits * 10 ^ exponent`. -/
structure Scientific where
  digits : Nat
  exponent : Int
deriving DecidableEq, Repr

/-- The rationals that round to a double, over one denominator. -/
structure RoundingInterval where
  low : Nat
  value : Nat
  high : Nat
  denominator : Nat
  closed : Bool

/-- The rounding interval of a positive magnitude.  Below the least
significand of a binade the neighbours are half as far apart. -/
def Binary64.interval (number : Binary64) : RoundingInterval :=
  let scale := Nat.pow 2 number.exponent.toNat
  let value := 4 * number.significand
  let below :=
    if number.significand = Nat.pow 2 52 ∧ -1074 < number.exponent then 1 else 2
  { low := (value - below) * scale
    value := value * scale
    high := (value + 2) * scale
    denominator := 4 * Nat.pow 2 (-number.exponent).toNat
    closed := number.significand % 2 = 0 }

/-- Whether `point / unit` lies in the interval. -/
def RoundingInterval.holds (interval : RoundingInterval) (point unit : Nat) :
    Bool :=
  let here := point * interval.denominator
  let low := interval.low * unit
  let high := interval.high * unit
  if interval.closed then low ≤ here && here ≤ high
  else low < here && here < high

/-- The exponent `e` with `10 ^ e ≤ numerator / denominator < 10 ^ (e + 1)`,
searched upwards from a lower estimate. -/
def floorLog10From (numerator denominator : Nat) : Nat → Int → Int
  | 0, exponent => exponent
  | steps + 1, exponent =>
      let next := exponent + 1
      if denominator * Nat.pow 10 next.toNat ≤
          numerator * Nat.pow 10 (-next).toNat then
        floorLog10From numerator denominator steps next
      else exponent

def floorLog10 (numerator denominator : Nat) : Int :=
  let estimate := floorLog2 numerator denominator * 30103 / 100000 - 1
  floorLog10From numerator denominator 4 estimate

/-- The point of the grid with unit `10 ^ exponent` that lies in the interval
and is nearest to its value; of two equally near the even one. -/
def RoundingInterval.nearestOnGrid? (interval : RoundingInterval)
    (exponent : Int) : Option Nat :=
  let unit := Nat.pow 10 (-exponent).toNat
  let step := Nat.pow 10 exponent.toNat
  let denominator := interval.denominator * step
  let below := interval.value * unit / denominator
  let rest := 2 * (interval.value * unit % denominator)
  let upFirst := denominator < rest || (rest == denominator && below % 2 == 1)
  let first := if upFirst then below + 1 else below
  let second := if upFirst then below else below + 1
  if interval.holds (first * step) unit then some first
  else if interval.holds (second * step) unit then some second
  else none

/-- The first grid with a hit, beginning with the given number of digits. -/
def shortestFrom (interval : RoundingInterval) (top : Int) :
    Nat → Nat → Scientific
  | 0, digits => ⟨interval.value / interval.denominator, top - digits⟩
  | steps + 1, digits =>
      let exponent := top - digits + 1
      match interval.nearestOnGrid? exponent with
      | some point => ⟨point, exponent⟩
      | none => shortestFrom interval top steps (digits + 1)

/-- Move trailing zeros of the digits into the exponent. -/
def Scientific.strip : Nat → Scientific → Scientific
  | 0, number => number
  | steps + 1, number =>
      if number.digits ≠ 0 ∧ number.digits % 10 = 0 then
        Scientific.strip steps ⟨number.digits / 10, number.exponent + 1⟩
      else number

/-- The shortest decimal that reads back as the magnitude of a nonzero
double. -/
def Binary64.shortest (number : Binary64) : Scientific :=
  let interval := number.interval
  let top := floorLog10 interval.value interval.denominator
  (shortestFrom interval top 17 1).strip 20

/-- Where a number format changes from positional to scientific notation. -/
structure NumberStyle where
  /-- The least decimal exponent that is written positionally. -/
  lowest : Int
  /-- The least decimal exponent above those written positionally. -/
  beyond : Int

/-- The digits `text` with a point after the first `whole` of them, filled with
zeros so that a digit stands on either side of the point. -/
def positional (text : String) (whole : Int) : String :=
  let length : Int := text.length
  if whole ≤ 0 then
    "0." ++ String.ofList (List.replicate (-whole).toNat '0') ++ text
  else if length ≤ whole then
    text ++ String.ofList (List.replicate (whole - length).toNat '0') ++ ".0"
  else
    String.ofList (text.toList.take whole.toNat) ++ "." ++
      String.ofList (text.toList.drop whole.toNat)

/-- The digits `text` in scientific notation, the exponent with its sign. -/
def scientific (text : String) (exponent : Int) : String :=
  let sign := if exponent < 0 then "-" else "+"
  let mantissa :=
    match text.toList with
    | first :: second :: rest =>
        String.ofList [first] ++ "." ++ String.ofList (second :: rest)
    | _ => text
  mantissa ++ "e" ++ sign ++ toString exponent.natAbs

def Binary64.text (style : NumberStyle) (number : Binary64) : String :=
  let sign := if number.negative then "-" else ""
  if number.significand = 0 then sign ++ "0.0"
  else
    let decimal := number.shortest
    let digits := toString decimal.digits
    let exponent := decimal.exponent + digits.length - 1
    if style.lowest ≤ exponent ∧ exponent < style.beyond then
      sign ++ positional digits (exponent + 1)
    else sign ++ scientific digits exponent

end TagDoc.Decimal
