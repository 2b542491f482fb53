import ScimQuery.Error
import ScimQuery.Text.Classes
import ScimQuery.Text.Cursor

/-!
# Path — Piece

The pieces into which a path falls: a name and what ends it, which is a dot, an opening bracket
or the end of the text.  A dot after a colon is no end of a name but a fault, since a schema
comes before the first attribute; so is a dot at the end of the text.
-/

namespace ScimQuery.Path

open Text (Cursor isNameChar)

/-- A piece of a path. -/
structure Piece where
  /-- The name, which may be empty. -/
  name : List Char
  /-- Does an opening bracket end the name? -/
  opens : Bool
  /-- Where the name starts. -/
  position : Nat
  /-- The place after the name and after what ends it. -/
  next : Cursor
  deriving DecidableEq

/-- The piece at a place, or `none` at the end of the text. -/
def Piece.read (c : Cursor) : Except Error (Option Piece) :=
  let name := c.rest.takeWhile isNameChar
  let stop := c.skipWhile isNameChar
  match stop.rest with
  | [] => .ok (if name.isEmpty then none else some ⟨name, false, c.position, stop⟩)
  | d :: rest =>
    let after : Cursor := ⟨stop.position + 1, rest⟩
    if d = '[' then .ok (some ⟨name, true, c.position, after⟩)
    else if d = '.' ∧ name.getLast? ≠ some ':' then
      if rest.isEmpty then .error .unexpectedEndOfPath
      else .ok (some ⟨name, false, c.position, after⟩)
    else .error (.unexpectedCharacter d stop.position c.position)

theorem Piece.read_length {c : Cursor} {piece : Piece} (h : Piece.read c = .ok (some piece)) :
    piece.next.rest.length < c.rest.length := by
  have hle := c.length_skipWhile_le isNameChar
  unfold Piece.read at h
  dsimp only at h
  split at h
  · rename_i hstop
    split at h
    · cases h
    · rename_i hname
      cases h
      rw [hstop]
      cases hrest : c.rest with
      | nil => simp [hrest] at hname
      | cons => simp
  · rename_i hstop
    rw [hstop] at hle
    simp only [List.length_cons] at hle
    split at h
    · cases h; exact hle
    · split at h
      · split at h
        · cases h
        · cases h; exact hle
      · cases h

end ScimQuery.Path
