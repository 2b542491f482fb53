import ScimQuery.Proofs.Text.Local
import ScimQuery.Proofs.Text.Places

/-!
# Text — places further on

Between two places of a text lie the characters that a reader takes on its way from the first to
the second (`Cursor.Takes`).  The first is before the second when there are such characters
(`Cursor.Before`); then less is left to read at the second (`Before.length_lt`).  What starts inside
a text stays inside it (`Before.inText`), no further on than its end.
-/

namespace ScimQuery.Text

namespace Cursor

/-- The characters `w` lie between the two places. -/
def Takes (c : Cursor) (w : List Char) (next : Cursor) : Prop :=
  c.rest = w ++ next.rest ∧ next.position = c.position + w.length

/-- The second place comes after the first one. -/
def Before (c next : Cursor) : Prop :=
  ∃ w, w ≠ [] ∧ c.Takes w next

/-- The place is one of the text, its end included. -/
structure InText (text : List Char) (c : Cursor) : Prop where
  place : c.PlaceOf text
  inside : c.position ≤ text.length

variable {c d e : Cursor} {v w text : List Char}

theorem Takes.append (h : c.Takes v d) (h' : d.Takes w e) : c.Takes (v ++ w) e := by
  obtain ⟨hrest, hposition⟩ := h
  obtain ⟨hrest', hposition'⟩ := h'
  refine ⟨by rw [hrest, hrest', List.append_assoc], ?_⟩
  rw [hposition', hposition, List.length_append, Nat.add_assoc]

theorem Before.takes (h : c.Before d) (h' : d.Takes w e) : c.Before e := by
  obtain ⟨v, hv, h⟩ := h
  exact ⟨v ++ w, by simp [hv], h.append h'⟩

theorem Before.trans (h : c.Before d) (h' : d.Before e) : c.Before e := by
  obtain ⟨w, -, h'⟩ := h'
  exact h.takes h'

theorem Before.length_lt (h : c.Before d) : d.rest.length < c.rest.length := by
  obtain ⟨w, hw, hrest, -⟩ := h
  have hone : 1 ≤ w.length := List.length_pos_of_ne_nil hw
  rw [hrest, List.length_append]
  omega

/-- Everything that is left lies in front of the end. -/
theorem takes_end (c : Cursor) : c.Takes c.rest ⟨c.position + c.rest.length, []⟩ :=
  ⟨(List.append_nil _).symm, rfl⟩

/-- A run of characters of a class lies in front of the place behind it. -/
theorem takes_skipWhile (c : Cursor) (p : Char → Bool) :
    c.Takes (c.rest.takeWhile p) (c.skipWhile p) :=
  ⟨List.takeWhile_append_dropWhile.symm, rfl⟩

/-! ### Places of a text -/

theorem inText_start (text : List Char) : (start text).InText text :=
  ⟨placeOf_start text, Nat.zero_le _⟩

theorem InText.length_eq (h : c.InText text) : c.position + c.rest.length = text.length := by
  rw [← h.place, List.length_drop]
  exact Nat.add_sub_of_le h.inside

theorem Takes.inText (h : c.Takes w d) (hc : c.InText text) : d.InText text := by
  obtain ⟨hrest, hposition⟩ := h
  constructor
  case place =>
    have hplace : PlaceOf text ⟨c.position, w ++ d.rest⟩ := hrest ▸ hc.place
    have hafter := hplace.append
    rwa [← hposition] at hafter
  case inside =>
    rw [← hc.length_eq, hrest, hposition, List.length_append]
    omega

theorem Before.inText (h : c.Before d) (hc : c.InText text) : d.InText text := by
  obtain ⟨w, -, h⟩ := h
  exact h.inText hc

/-- The place where nothing is left to read is the end of the text. -/
theorem InText.eq_end (h : c.InText text) (hrest : c.rest = []) : c = ⟨text.length, []⟩ := by
  obtain ⟨position, rest⟩ := c
  obtain rfl : rest = [] := hrest
  have hlength : position + 0 = text.length := h.length_eq
  rw [← hlength, Nat.add_zero]

end Cursor

/-- A local reader takes something. -/
theorem Local.before {reads : Cursor → Cursor → Prop} {c after : Cursor} (h : Local reads c after) :
    c.Before after := by
  obtain ⟨w, hw, hrest, hposition, -⟩ := h
  exact ⟨w, hw, hrest, hposition⟩

end ScimQuery.Text
