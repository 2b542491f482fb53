import ScimQuery.Number.Basic
import ScimQuery.Number.Decimal
import ScimQuery.Text.Classes

/-!
# Number — Text

The JSON text of a number.  A whole number is its decimal digits.  Any other number is its
shortest decimal, laid out as `NumberLayout` says: plainly while the leading digit stands for a
power of ten between two bounds, with a point and a digit after it, and in scientific notation
beyond them, where the exponent always has a sign and no padding.
-/

namespace ScimQuery.Number

/-- The decisions of a layout for decimals. -/
structure NumberLayout where
  /-- The least power of ten of a leading digit that is written plainly. -/
  plainFrom : Int
  /-- The largest power of ten of a leading digit that is written plainly. -/
  plainTo : Int

/-- A number is written plainly from `0.00001` on and below `10 ^ 16`. -/
def jsonLayout : NumberLayout := ⟨-5, 15⟩

/-- The decimal digits of a natural number. -/
def digitChars (n : Nat) : List Char :=
  Nat.toDigits 10 n

/-- The decimal digits of an integer, after a minus sign if it is negative. -/
def intChars (n : Int) : List Char :=
  if n < 0 then '-' :: digitChars n.natAbs else digitChars n.natAbs

/-- A positive decimal in a layout. -/
def NumberLayout.chars (layout : NumberLayout) (d : Decimal) : List Char :=
  let digits := Text.dropEnd (· == '0') (digitChars d.digits)
  let leading := d.exponent + (digitChars d.digits).length - 1
  if layout.plainFrom ≤ leading ∧ leading ≤ layout.plainTo then
    if leading < 0 then
      '0' :: '.' :: (List.replicate (-leading - 1).toNat '0' ++ digits)
    else
      let count := leading.toNat + 1
      let fraction := digits.drop count
      digits.take count ++ List.replicate (count - digits.length) '0' ++
        '.' :: (if fraction.isEmpty then ['0'] else fraction)
  else
    let mantissa := match digits with
      | first :: [] => [first]
      | first :: more => first :: '.' :: more
      | [] => []
    mantissa ++ 'e' :: (if leading < 0 then '-' else '+') :: digitChars leading.natAbs

/-- The text of a binary64 number. -/
def Double.chars (d : Double) : List Char :=
  let sign := if d.negative then ['-'] else []
  sign ++
    if d.magnitude = 0 then ['0', '.', '0'] else jsonLayout.chars (Magnitude.shortest d.magnitude)

/-- The JSON text of a number. -/
def chars : Number → List Char
  | .whole n => intChars n.val
  | .double d => d.chars

end ScimQuery.Number
