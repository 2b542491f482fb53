import ScimQuery.Number.Double

/-!
# Number — Decimal

Decimal notation for binary64 numbers, read and written.

A number is read from an optional sign, digits with an optional point, and an optional exponent.
It is the one nearest to the decimal.

It is written as the shortest decimal that reads back as it.  The reals that round to a number
form an interval around it, whose ends belong to it exactly when the significand is even.  For
one digit, two digits and so on, the number has two neighbours among the decimals of that many
digits; the first of these grids with a neighbour inside the interval is taken, and of two
neighbours inside it the nearer, a tie going to the even digit string.
-/

namespace ScimQuery.Number

/-! ### Reading -/

/-- The number that digits spell, on from `n`. -/
def digitsValue (n : Nat) (digits : List Char) : Nat :=
  digits.foldl (fun n d => n * 10 + (d.toNat - '0'.toNat)) n

/-- A sign, if there is one, and what follows it; `true` is a minus. -/
def splitSign : List Char → Bool × List Char
  | '-' :: rest => (true, rest)
  | '+' :: rest => (false, rest)
  | rest => (false, rest)

/-- The exponent after its mark: `0` for an empty text, `none` for a malformed one. -/
def exponent? : List Char → Option Int
  | [] => some 0
  | mark :: cs =>
    let (minus, digits) := splitSign cs
    if mark.toLower = 'e' ∧ ¬ digits.isEmpty ∧ digits.all Char.isDigit then
      let n : Int := digitsValue 0 digits
      some (if minus then -n else n)
    else none

/-- The binary64 number nearest to a decimal, if the text is one and the number is finite. -/
def Double.ofText? (cs : List Char) : Option Double :=
  let (negative, body) := splitSign cs
  let whole := body.takeWhile Char.isDigit
  let afterWhole := body.dropWhile Char.isDigit
  let (fraction, tail) := match afterWhole with
    | '.' :: rest => (rest.takeWhile Char.isDigit, rest.dropWhile Char.isDigit)
    | rest => ([], rest)
  if whole.isEmpty ∧ fraction.isEmpty then none
  else do
    let exponent ← exponent? tail
    ofDecimal? negative (digitsValue (digitsValue 0 whole) fraction) (exponent - fraction.length)

/-! ### The shortest decimal -/

/-- A decimal `digits * 10 ^ exponent`. -/
structure Decimal where
  /-- The digits, as one whole number. -/
  digits : Nat
  /-- The power of ten of the last digit. -/
  exponent : Int
  deriving Repr, DecidableEq

namespace Magnitude

/-- The lower and upper ends of the reals that round to a magnitude, in units of a quarter of
its last place. -/
def ends (n : Nat) : Nat × Nat :=
  let m := significand n
  (if m = leastNormal ∧ -1074 < exponent n then 4 * m - 1 else 4 * m - 2, 4 * m + 2)

/-- Does `digits * 10 ^ exponent` round to the magnitude? -/
def admits (n : Nat) (d : Decimal) : Bool :=
  let (lo, hi) := ends n
  let e := exponent n - 2
  let x := d.digits * Nat.pow 10 d.exponent.toNat * Nat.pow 2 (-e).toNat
  let unit := Nat.pow 10 (-d.exponent).toNat * Nat.pow 2 e.toNat
  if significand n % 2 = 0 then lo * unit ≤ x && x ≤ hi * unit
  else lo * unit < x && x < hi * unit

/-- The largest `e` with `10 ^ e ≤ num / den`. -/
def floorLog10 (num den : Nat) : Int :=
  let reaches (e : Int) : Bool := den * Nat.pow 10 e.toNat ≤ num * Nat.pow 10 (-e).toNat
  let guess := floorLog2 num den * 30103 / 100000
  if reaches (guess + 1) then guess + 1 else if reaches guess then guess else guess - 1

/-- The decimal of `count` digits for a magnitude, if one of its two neighbours reads back. -/
def onGrid? (n count : Nat) : Option Decimal :=
  let exponent := floorLog10 (num n) (den n) - count + 1
  let x := num n * Nat.pow 10 (-exponent).toNat
  let unit := den n * Nat.pow 10 exponent.toNat
  let below := x / unit
  let remainder := x % unit
  let lower : Decimal := ⟨below, exponent⟩
  let upper : Decimal := ⟨below + 1, exponent⟩
  match admits n lower, admits n upper with
  | true, true =>
    some (if 2 * remainder < unit ∨ (2 * remainder = unit ∧ below % 2 = 0) then lower else upper)
  | true, false => some lower
  | false, true => some upper
  | false, false => none

/-- The shortest decimal that reads back as a positive magnitude. -/
def shortest (n : Nat) : Decimal :=
  ((List.range 17).findSome? (fun k => onGrid? n (k + 1))).getD ⟨num n / den n, 0⟩

end Magnitude

end ScimQuery.Number
