/-!
# Binary floating-point numbers with 53-bit significands

A finite double is a sign and a magnitude `significand * 2 ^ exponent`.  The
magnitude is kept canonical: below `2 ^ 53`, with exponent at least `-1074`,
and either at least `2 ^ 52` or of the smallest exponent.  Every operation
computes its exact rational result and rounds once, to nearest, ties to even.
-/

namespace TagDoc.Decimal

structure Binary64 where
  negative : Bool
  significand : Nat
  exponent : Int
deriving DecidableEq, Repr

/-- `numerator / denominator` to the nearest integer, a half to the even one. -/
def divideToNearest (numerator denominator : Nat) : Nat :=
  let quotient := numerator / denominator
  let twice := 2 * (numerator % denominator)
  if twice < denominator then quotient
  else if denominator < twice then quotient + 1
  else quotient + quotient % 2

/-- The exponent `e` with `2 ^ e ≤ numerator / denominator < 2 ^ (e + 1)`,
for a positive quotient. -/
def floorLog2 (numerator denominator : Nat) : Int :=
  let guess : Int := numerator.log2 - denominator.log2
  if denominator * Nat.pow 2 guess.toNat ≤
      numerator * Nat.pow 2 (-guess).toNat then guess
  else guess - 1

namespace Binary64

def zero (negative : Bool) : Binary64 :=
  ⟨negative, 0, -1074⟩

/-- The double nearest to `numerator / denominator`, unless that is beyond
the largest one. -/
def ofQuotient? (negative : Bool) (numerator denominator : Nat) :
    Option Binary64 :=
  if numerator = 0 then some (zero negative)
  else
    let exponent := max (floorLog2 numerator denominator - 52) (-1074)
    let significand := divideToNearest (numerator * Nat.pow 2 (-exponent).toNat)
      (denominator * Nat.pow 2 exponent.toNat)
    let (significand, exponent) :=
      if significand = Nat.pow 2 53 then (Nat.pow 2 52, exponent + 1)
      else (significand, exponent)
    if 971 < exponent then none else some ⟨negative, significand, exponent⟩

def ofNat? (negative : Bool) (magnitude : Nat) : Option Binary64 :=
  ofQuotient? negative magnitude 1

/-- The product, rounded, with the sign of `left`; `right` is a positive
scale. -/
def scaleUp? (left right : Binary64) : Option Binary64 :=
  let exponent := left.exponent + right.exponent
  ofQuotient? left.negative
    (left.significand * right.significand * Nat.pow 2 exponent.toNat)
    (Nat.pow 2 (-exponent).toNat)

/-- The quotient, rounded, with the sign of `left`; `right` is a positive
scale. -/
def scaleDown? (left right : Binary64) : Option Binary64 :=
  let exponent := left.exponent - right.exponent
  ofQuotient? left.negative
    (left.significand * Nat.pow 2 exponent.toNat)
    (right.significand * Nat.pow 2 (-exponent).toNat)

def powerOfTen? (exponent : Nat) : Option Binary64 :=
  ofNat? false (Nat.pow 10 exponent)

end Binary64

end TagDoc.Decimal
