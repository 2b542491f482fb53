/-!
# Number — Double

Finite binary64 numbers as sign and magnitude, where the magnitude is the lower 63 bits of the
usual encoding.  Magnitudes are ordered as the numbers they stand for, and the next number is
the next magnitude, so that rounding is a matter of natural numbers alone.

* `Magnitude.nearest`: the magnitude nearest to a quotient, a half going to the even one.
* `Magnitude.mul`, `Magnitude.div`: the exact product and quotient, rounded once.
* `Double.same`: equality of values, under which the two zeros are equal.
-/

namespace ScimQuery.Number

/-- `num / den` as an integer, a half going to the even neighbour. -/
def roundDiv (num den : Nat) : Nat :=
  let q := num / den
  let r := num % den
  if 2 * r < den ∨ (2 * r = den ∧ q % 2 = 0) then q else q + 1

/-- `num / (den * 2 ^ e)` as an integer, a half going to the even neighbour. -/
def roundScaled (num den : Nat) (e : Int) : Nat :=
  if 0 ≤ e then roundDiv num (den * Nat.pow 2 e.toNat)
  else roundDiv (num * Nat.pow 2 (-e).toNat) den

namespace Magnitude

/-- The first magnitude whose significand has all 53 bits. -/
def leastNormal : Nat := 0x10000000000000

/-- The first magnitude beyond the finite ones. -/
def infinity : Nat := 2047 * leastNormal

/-- The whole number `m` in `m * 2 ^ e`, the value of a magnitude. -/
def significand (n : Nat) : Nat :=
  if n < leastNormal then n else leastNormal + n % leastNormal

/-- The exponent `e` in `m * 2 ^ e`, the value of a magnitude. -/
def exponent (n : Nat) : Int :=
  if n < leastNormal then -1074 else (n / leastNormal : Nat) - 1075

/-- The numerator of the value of a magnitude. -/
def num (n : Nat) : Nat :=
  significand n * Nat.pow 2 (exponent n).toNat

/-- The denominator of the value of a magnitude. -/
def den (n : Nat) : Nat :=
  Nat.pow 2 (-exponent n).toNat

/-- The largest `e` with `2 ^ e ≤ num / den`. -/
def floorLog2 (num den : Nat) : Int :=
  let e : Int := (Nat.log2 num : Int) - Nat.log2 den
  if den * Nat.pow 2 e.toNat ≤ num * Nat.pow 2 (-e).toNat then e else e - 1

/-- The magnitude nearest to `num / den`, a half going to the even one.  A quotient beyond the
finite numbers gives `infinity` or more. -/
def nearest (num den : Nat) : Nat :=
  if num = 0 then 0
  else
    let e := max (floorLog2 num den - 52) (-1074)
    (e + 1074).toNat * leastNormal + roundScaled num den e

/-- The product of two values, rounded. -/
def mul (a b : Nat) : Nat :=
  nearest (num a * num b) (den a * den b)

/-- The quotient of two values, rounded. -/
def div (a b : Nat) : Nat :=
  nearest (num a * den b) (den a * num b)

/-- The magnitude nearest to `10 ^ k`. -/
def pow10 (k : Nat) : Nat :=
  nearest (Nat.pow 10 k) 1

end Magnitude

/-- A finite binary64 number. -/
structure Double where
  /-- Is the sign a minus?  Zero has both signs. -/
  negative : Bool
  /-- The encoding without its sign bit. -/
  magnitude : Nat
  /-- The number is neither infinite nor undefined. -/
  finite : magnitude < Magnitude.infinity
  deriving DecidableEq

namespace Double

/-- The number of the given sign and magnitude, if it is finite. -/
def ofMagnitude? (negative : Bool) (magnitude : Nat) : Option Double :=
  if h : magnitude < Magnitude.infinity then some ⟨negative, magnitude, h⟩ else none

/-- The zero of the given sign. -/
def zero (negative : Bool) : Double :=
  ⟨negative, 0, by decide⟩

/-- The 64 bits of the encoding. -/
def bits (d : Double) : Nat :=
  (if d.negative then 0x8000000000000000 else 0) + d.magnitude

/-- Equality of values: the two zeros are equal. -/
def same (a b : Double) : Bool :=
  a.magnitude == b.magnitude && (a.negative == b.negative || a.magnitude == 0)

/-- The number nearest to an integer, if it is finite. -/
def ofInt? (n : Int) : Option Double :=
  ofMagnitude? (decide (n < 0)) (Magnitude.nearest n.natAbs 1)

/-- The number nearest to `± significand * 10 ^ exponent`, if it is finite.  From `10 ^ 310` on
no number is, and below `10 ^ (-330)` the nearest one is zero, so that no power is taken of an
exponent far out of range. -/
def ofDecimal? (negative : Bool) (significand : Nat) (exponent : Int) : Option Double :=
  if significand = 0 then some (zero negative)
  else if 310 ≤ exponent then none
  else if exponent + (Nat.log2 significand + 1) ≤ -330 then some (zero negative)
  else
    ofMagnitude? negative
      (Magnitude.nearest (significand * Nat.pow 10 exponent.toNat)
        (Nat.pow 10 (-exponent).toNat))

end Double

end ScimQuery.Number
