import TagDoc.Json.Basic

/-!
# The value of a JSON number

A numeral keeps the digits of a number text.  Digits are gathered into a
64-bit significand; the whole digits that no longer fit count as powers of
ten, the fraction digits that no longer fit are dropped.  A numeral without
fraction and exponent is an integer if 64 bits can hold it.  All others become
doubles by one rounding of the significand and one scaling by a power of ten
(several for tiny numbers), so the last digit may differ from the double
nearest to the text.
-/

namespace TagDoc.Json

structure Exponent where
  negative : Bool
  digits : List Nat

structure Numeral where
  negative : Bool
  whole : List Nat
  fraction : Option (List Nat)
  exponent : Option Exponent

/-- The largest significand. -/
def Numeral.limit : Nat := Nat.pow 2 64 - 1

/-- The significand of the whole digits, and how many of them did not fit. -/
def Numeral.gatherWhole : Nat → List Nat → Nat × Nat
  | significand, [] => (significand, 0)
  | significand, digit :: rest =>
      if Numeral.limit < significand * 10 + digit then
        (significand, rest.length + 1)
      else gatherWhole (significand * 10 + digit) rest

/-- The significand extended by the fraction digits that fit, and their
number. -/
def Numeral.gatherFraction : Nat → List Nat → Nat × Nat
  | significand, [] => (significand, 0)
  | significand, digit :: rest =>
      if Numeral.limit < significand * 10 + digit then (significand, 0)
      else
        let (result, places) := gatherFraction (significand * 10 + digit) rest
        (result, places + 1)

/-- Scale a double by a power of ten.  A negative power beyond the doubles'
range is applied in steps of `10 ^ -308`; four of them bring every
significand to zero. -/
def scaleByPowerOfTen? : Nat → Decimal.Binary64 → Int → Option Decimal.Binary64
  | 0, value, _ => some (.zero value.negative)
  | steps + 1, value, exponent =>
      if exponent.natAbs ≤ 308 then do
        let power ← Decimal.Binary64.powerOfTen? exponent.natAbs
        if 0 ≤ exponent then value.scaleUp? power
        else value.scaleDown? power
      else if value.significand = 0 then some value
      else if 0 ≤ exponent then none
      else do
        let power ← Decimal.Binary64.powerOfTen? 308
        let smaller ← value.scaleDown? power
        scaleByPowerOfTen? steps smaller (exponent + 308)

/-- The double of a significand and a power of ten. -/
def Numeral.double? (negative : Bool) (significand : Nat) (exponent : Int) :
    Option Number := do
  let whole ← Decimal.Binary64.ofNat? negative significand
  let scaled ← scaleByPowerOfTen? 5 whole exponent
  some (.double scaled)

/-- The largest exponent that is taken at its value. -/
def Exponent.limit : Nat := Nat.pow 2 31 - 1

def ofDigits (digits : List Nat) : Nat :=
  digits.foldl (fun value digit => value * 10 + digit) 0

/-- The value of a numeral, `none` when it is beyond the doubles. -/
def Numeral.value? (numeral : Numeral) : Option Number :=
  let (significand, dropped) := gatherWhole 0 numeral.whole
  match numeral.fraction, numeral.exponent with
  | none, none =>
      if dropped = 0 && !numeral.negative then some (.integer significand)
      else if dropped = 0 && 0 < significand && significand ≤ Nat.pow 2 63 then
        some (.integer (-(significand : Int)))
      else double? numeral.negative significand dropped
  | fraction, exponent =>
      let (significand, places) :=
        gatherFraction significand (fraction.getD [])
      let start : Int := (dropped : Int) - places
      match exponent with
      | none => double? numeral.negative significand start
      | some power =>
          let size := ofDigits power.digits
          if Exponent.limit < size then
            if significand ≠ 0 && !power.negative then none
            else some (.double (.zero numeral.negative))
          else
            double? numeral.negative significand
              (if power.negative then start - size else start + size)

end TagDoc.Json
