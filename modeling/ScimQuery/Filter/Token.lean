import ScimQuery.Error
import ScimQuery.Text.Classes
import ScimQuery.Text.Cursor

/-!
# Filter — Token

The tokens of a filter.  Spaces separate tokens, and one space after a word belongs to it.  A
parenthesis ends a word and stays unread, and so does a closing bracket inside a value filter;
outside of one it is a character that no token may hold.  An opening bracket ends the path in
front of it and belongs to it.
-/

namespace ScimQuery

open Text (Cursor isWordChar)

/-- Where a token stands: in a filter by itself, or between the brackets of a value filter. -/
inductive Region where
  | filter
  | valueFilter
  deriving Repr, DecidableEq

/-- A token of a filter. -/
inductive Token where
  | openParen
  | closeParen
  | closeBracket
  /-- A keyword, an operator or an attribute. -/
  | word (text : List Char)
  /-- An attribute and the bracket that opens its value filter. -/
  | valuePath (text : List Char)
  deriving Repr, DecidableEq

namespace Token

/-- The text of a token. -/
def text : Token → String
  | .openParen => "("
  | .closeParen => ")"
  | .closeBracket => "]"
  | .word text => String.ofList text
  | .valuePath text => String.ofList text ++ "["

/-- The token of a character that ends a word and is a token by itself. -/
def ofDelimiter? (region : Region) (c : Char) : Option Token :=
  if c = '(' then some .openParen
  else if c = ')' then some .closeParen
  else if c = ']' ∧ region = .valueFilter then some .closeBracket
  else none

/-- A token, where it starts and the place after it. -/
structure Lexeme where
  token : Token
  position : Nat
  next : Cursor
  deriving DecidableEq

/-- The token at a place, or `none` at the end of the text. -/
def read (region : Region) (c : Cursor) : Except Error (Option Lexeme) :=
  let start := c.skipWhile (· == ' ')
  let word := start.rest.takeWhile isWordChar
  let stop := start.skipWhile isWordChar
  match stop.rest with
  | [] => .ok (if word.isEmpty then none else some ⟨.word word, start.position, stop⟩)
  | d :: rest =>
    let after : Cursor := ⟨stop.position + 1, rest⟩
    if d = ' ' then .ok (some ⟨.word word, start.position, after⟩)
    else if d = '[' then .ok (some ⟨.valuePath word, start.position, after⟩)
    else
      match ofDelimiter? region d with
      | some token =>
        if word.isEmpty then .ok (some ⟨token, start.position, after⟩)
        else .ok (some ⟨.word word, start.position, stop⟩)
      | none => .error (.unexpectedCharacter d stop.position start.position)

theorem length_lt_of_takeWhile {p : Char → Bool} {cs : List Char}
    (h : (cs.takeWhile p).isEmpty = false) : (cs.dropWhile p).length < cs.length := by
  have h₁ : (cs.takeWhile p ++ cs.dropWhile p).length = cs.length := by
    rw [List.takeWhile_append_dropWhile]
  rw [List.length_append] at h₁
  have h₂ : 0 < (cs.takeWhile p).length := by
    cases hp : cs.takeWhile p with
    | nil => simp [hp] at h
    | cons => simp
  omega

theorem read_length {region : Region} {c : Cursor} {lexeme : Lexeme}
    (h : read region c = .ok (some lexeme)) : lexeme.next.rest.length < c.rest.length := by
  have h₁ := c.length_skipWhile_le (· == ' ')
  have h₂ := (c.skipWhile (· == ' ')).length_skipWhile_le isWordChar
  unfold read at h
  dsimp only at h
  split at h
  · split at h
    · cases h
    · rename_i hword
      cases h
      have := length_lt_of_takeWhile (by simpa using hword)
      exact Nat.lt_of_lt_of_le this h₁
  · rename_i hstop
    rw [hstop] at h₂
    simp only [List.length_cons] at h₂
    split at h
    · cases h; simp only; omega
    · split at h
      · cases h; simp only; omega
      · split at h
        · split at h
          · cases h; simp only; omega
          · rename_i hword
            cases h
            have := length_lt_of_takeWhile (by simpa using hword)
            exact Nat.lt_of_lt_of_le this h₁
        · cases h

end Token

end ScimQuery
