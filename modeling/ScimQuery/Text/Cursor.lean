/-!
# Text — Cursor

A place in a text, as the number of characters before it and the characters after it.  Places
are counted in characters from the start of the text that was handed in, so that they can be
shown as they are.
-/

namespace ScimQuery.Text

/-- A place in a text. -/
structure Cursor where
  /-- The number of characters before the place. -/
  position : Nat
  /-- The characters still to be read. -/
  rest : List Char
  deriving Repr, DecidableEq

namespace Cursor

/-- The start of a text. -/
def start (cs : List Char) : Cursor :=
  ⟨0, cs⟩

/-- The place `n` characters on, or the end of the text if there are fewer. -/
def skip (c : Cursor) (n : Nat) : Cursor :=
  ⟨c.position + min n c.rest.length, c.rest.drop n⟩

/-- The place after the characters of `p` that come next. -/
def skipWhile (c : Cursor) (p : Char → Bool) : Cursor :=
  ⟨c.position + (c.rest.takeWhile p).length, c.rest.dropWhile p⟩

@[simp] theorem skip_rest (c : Cursor) (n : Nat) : (c.skip n).rest = c.rest.drop n := rfl

@[simp] theorem skipWhile_rest (c : Cursor) (p : Char → Bool) :
    (c.skipWhile p).rest = c.rest.dropWhile p := rfl

theorem length_skip_le (c : Cursor) (n : Nat) : (c.skip n).rest.length ≤ c.rest.length := by
  simp

theorem length_skipWhile_le (c : Cursor) (p : Char → Bool) :
    (c.skipWhile p).rest.length ≤ c.rest.length :=
  (List.dropWhile_sublist p).length_le

end Cursor

end ScimQuery.Text
