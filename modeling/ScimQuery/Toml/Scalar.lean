import ScimQuery.Json.Quoted
import ScimQuery.Number.Decimal
import ScimQuery.Toml.Basic

/-!
# Toml — Scalar

Numbers, truth values and dates.  They are written without spaces, but for one that may stand
between the date and the time, so that each is recognised as a whole.
-/

namespace ScimQuery.Toml

/-- May `c` stand in a number, a truth value or a date? -/
def isScalarChar (c : Char) : Bool :=
  c.isAlphanum || c == '+' || c == '-' || c == '.' || c == ':' || c == '_'

/-! ### Numbers -/

/-- Is the text digits, perhaps with single underscores between them? -/
def isDigits (isDigit : Char → Bool) : List Char → Bool
  | [] => false
  | [d] => isDigit d
  | d :: '_' :: more => isDigit d && isDigits isDigit more
  | d :: more => isDigit d && isDigits isDigit more

/-- Is the text a decimal without sign: a zero, or digits that do not start with one? -/
def isWhole : List Char → Bool
  | ['0'] => true
  | '0' :: _ => false
  | cs => isDigits Char.isDigit cs

/-- The value of digits of a base, underscores aside. -/
def baseValue (base : Nat) (cs : List Char) : Nat :=
  cs.foldl (fun n c => (Json.hexValue? c).elim n (n * base + ·)) 0

/-- The integer of a base, after the mark of the base. -/
def baseInteger? (base : Nat) (isDigit : Char → Bool) (cs : List Char) : Option Int :=
  if isDigits isDigit cs then some (baseValue base cs) else none

/-- The integer that a text spells, of any size. -/
def integer? (cs : List Char) : Option Int :=
  match cs with
  | '0' :: 'x' :: digits => baseInteger? 16 (fun c => (Json.hexValue? c).isSome) digits
  | '0' :: 'o' :: digits => baseInteger? 8 (fun c => '0' ≤ c && c ≤ '7') digits
  | '0' :: 'b' :: digits => baseInteger? 2 (fun c => c == '0' || c == '1') digits
  | _ =>
    let (negative, digits) := Number.splitSign cs
    if isWhole digits then
      let n : Int := baseValue 10 digits
      some (if negative then -n else n)
    else none

/-- Is the integer one of 64 bits with a sign? -/
def isSigned64 (n : Int) : Bool :=
  -0x8000000000000000 ≤ n && n < 0x8000000000000000

/-- Is the text the digits of an exponent, after its mark? -/
def isExponent (cs : List Char) : Bool :=
  isDigits Char.isDigit (Number.splitSign cs).2

/-- Is the text a number with a fraction or an exponent?  One too large is refused. -/
def isFloat (cs : List Char) : Bool :=
  let (negative, body) := Number.splitSign cs
  let isMark (c : Char) : Bool := c == 'e' || c == 'E'
  let whole := body.takeWhile (fun c => !(isMark c || c == '.'))
  let after := body.dropWhile (fun c => !(isMark c || c == '.'))
  let shape := match after with
    | '.' :: rest =>
      let fraction := rest.takeWhile (fun c => !isMark c)
      isDigits Char.isDigit fraction &&
        (match rest.dropWhile (fun c => !isMark c) with
        | [] => true
        | _ :: exponent => isExponent exponent)
    | _ :: exponent => isExponent exponent
    | [] => false
  let finite := (Number.Double.ofText? (body.filter (· != '_'))).isSome
  body = "inf".toList || body = "nan".toList || (isWhole whole && shape && (negative || finite))

/-! ### Dates -/

/-- The number of `count` digits at the front of a text, and what follows. -/
def fixedDigits? (count : Nat) (cs : List Char) : Option (Nat × List Char) :=
  let digits := cs.take count
  if digits.length = count ∧ digits.all Char.isDigit then some (baseValue 10 digits, cs.drop count)
  else none

/-- A given character at the front of a text. -/
def char? (c : Char) : List Char → Option (List Char)
  | d :: rest => if c = d then some rest else none
  | [] => none

/-- The number of days of a month. -/
def daysIn (year month : Nat) : Nat :=
  if month = 2 then
    if year % 4 = 0 ∧ (year % 100 ≠ 0 ∨ year % 400 = 0) then 29 else 28
  else if month ∈ [4, 6, 9, 11] then 30
  else 31

/-- A date at the front of a text: what follows it. -/
def date? (cs : List Char) : Option (List Char) := do
  let (year, cs) ← fixedDigits? 4 cs
  let (month, cs) ← fixedDigits? 2 (← char? '-' cs)
  let (day, cs) ← fixedDigits? 2 (← char? '-' cs)
  if 1 ≤ month ∧ month ≤ 12 ∧ 1 ≤ day ∧ day ≤ daysIn year month then some cs else none

/-- A time of day at the front of a text: what follows it. -/
def time? (cs : List Char) : Option (List Char) := do
  let (hour, cs) ← fixedDigits? 2 cs
  let (minute, cs) ← fixedDigits? 2 (← char? ':' cs)
  let (second, cs) ← fixedDigits? 2 (← char? ':' cs)
  if hour ≤ 23 ∧ minute ≤ 59 ∧ second ≤ 60 then
    match cs with
    | '.' :: d :: more => if d.isDigit then some (more.dropWhile Char.isDigit) else none
    | '.' :: [] => none
    | _ => some cs
  else none

/-- Is the text empty or the offset of a time zone? -/
def isOffset (cs : List Char) : Bool :=
  match cs with
  | [] => true
  | ['Z'] => true
  | ['z'] => true
  | sign :: more =>
    (sign == '+' || sign == '-') &&
      (do
        let (hour, more) ← fixedDigits? 2 more
        let (minute, more) ← fixedDigits? 2 (← char? ':' more)
        return hour ≤ 23 && minute ≤ 59 && more.isEmpty : Option Bool) == some true

/-- Is the text a time of day and perhaps an offset? -/
def isZonedTime (cs : List Char) : Bool :=
  (time? cs).elim false isOffset

/-- Is the text a date, a time, or both with a `T` between them? -/
def isDate (cs : List Char) : Bool :=
  match date? cs with
  | some [] => true
  | some (t :: more) => (t == 'T' || t == 't') && isZonedTime more
  | none => time? cs == some []

/-! ### Recognition -/

/-- The value that a text without spaces spells. -/
def scalar? (cs : List Char) : Option Toml :=
  if cs = "true".toList then some (.boolean true)
  else if cs = "false".toList then some (.boolean false)
  else
    match integer? cs with
    | some n => if isSigned64 n then some (.integer n) else none
    | none => if isFloat cs then some .float else if isDate cs then some .date else none

/-- The number, truth value or date at the front of a text, and what follows it. -/
def readScalar (cs : List Char) : Option (Toml × List Char) :=
  let text := cs.takeWhile isScalarChar
  let rest := cs.dropWhile isScalarChar
  match date? text, rest with
  | some [], ' ' :: d :: more =>
    if d.isDigit then
      if isZonedTime ((d :: more).takeWhile isScalarChar) then
        some (.date, (d :: more).dropWhile isScalarChar)
      else none
    else some (.date, rest)
  | _, _ => (scalar? text).map (·, rest)

end ScimQuery.Toml
