/-!
# Text — Comparing words

Keywords are recognised whatever the case of their letters, where only the letters `A` to `Z`
have a case.

How far a word is from another one is the least number of insertions, deletions and
substitutions of one element that turn one list into the other.  `editDistance` fills the usual
table a row at a time: the row of `xs` holds, for each tail of `ys` from the longest to the empty
one, its distance from `xs`.
-/

namespace ScimQuery.Text

/-! ### Keywords -/

/-- The text with the letters `A` to `Z` in lower case. -/
def lower (cs : List Char) : List Char :=
  cs.map Char.toLower

/-- Are the two texts equal but for the case of the letters `A` to `Z`? -/
def sameLetters (cs ds : List Char) : Bool :=
  lower cs == lower ds

/-- Is the text the keyword, in any case? -/
def isKeyword (cs : List Char) (keyword : String) : Bool :=
  sameLetters cs keyword.toList

/-! ### Edit distance -/

variable {α : Type} [BEq α]

/-- The row of the empty list: each tail of `ys` is as far away as it is long. -/
def emptyRow : List α → List Nat
  | [] => [0]
  | _ :: ys => (ys.length + 1) :: emptyRow ys

/-- The row of `x :: xs` from the row of `xs`. -/
def nextRow (x : α) : List α → List Nat → List Nat
  | [], row => [row.headD 0 + 1]
  | y :: ys, row =>
    let right := nextRow x ys row.tail
    let diagonal := row.tail.headD 0
    let here := if x == y then diagonal else 1 + min (row.headD 0) (min diagonal (right.headD 0))
    here :: right

/-- The distances of `xs` from the tails of `ys`. -/
def distanceRow (xs ys : List α) : List Nat :=
  xs.foldr (fun x row => nextRow x ys row) (emptyRow ys)

/-- The edit distance of two lists. -/
def editDistance (xs ys : List α) : Nat :=
  (distanceRow xs ys).headD 0

end ScimQuery.Text
