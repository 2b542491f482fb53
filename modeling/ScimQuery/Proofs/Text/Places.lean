import ScimQuery.Parse
import ScimQuery.Proofs.Text.Runs

/-!
# Text — places of a text

A cursor is a place of a text when the characters still to be read are those of the text from
its position on (`Cursor.PlaceOf`).  Reading on keeps it one (`PlaceOf.append`, `PlaceOf.skip`),
and where a character is still to be read, the text has it at the position
(`PlaceOf.getElem?_eq`), so that the position is inside the text (`PlaceOf.lt_length`).

* `exists_blank_tail`: what follows the text without the blanks at its end.
* `openText_eq_ok`, `openText_eq_error`: where reading starts, if the limits allow the length of
  the text.
* `openText_of_allows`: a text without blanks around it is read as a whole.
-/

namespace ScimQuery.Text

variable {text w s : List Char} {d : Char} {n p : Nat}

namespace Cursor

/-- The characters still to be read are those of the text from the position on. -/
def PlaceOf (text : List Char) (c : Cursor) : Prop :=
  text.drop c.position = c.rest

theorem placeOf_start (text : List Char) : (start text).PlaceOf text := rfl

/-- The place after the next characters. -/
theorem PlaceOf.append (h : PlaceOf text ⟨p, w ++ s⟩) : PlaceOf text ⟨p + w.length, s⟩ := by
  have hrest : text.drop p = w ++ s := h
  show text.drop (p + w.length) = s
  rw [← List.drop_drop, hrest, List.drop_left]

theorem PlaceOf.tail (h : PlaceOf text ⟨p, d :: s⟩) : PlaceOf text ⟨p + 1, s⟩ :=
  PlaceOf.append (w := [d]) h

theorem PlaceOf.skip {c : Cursor} (h : c.PlaceOf text) (n : Nat) : (c.skip n).PlaceOf text := by
  have hparts : PlaceOf text ⟨c.position, c.rest.take n ++ c.rest.drop n⟩ := by
    rwa [List.take_append_drop]
  have hafter := hparts.append
  rwa [List.length_take] at hafter

theorem PlaceOf.skipWhile {c : Cursor} (h : c.PlaceOf text) (q : Char → Bool) :
    (c.skipWhile q).PlaceOf text := by
  have hparts : PlaceOf text ⟨c.position, c.rest.takeWhile q ++ c.rest.dropWhile q⟩ := by
    rwa [List.takeWhile_append_dropWhile]
  exact hparts.append

/-- The end of the text, from any place of it. -/
theorem PlaceOf.atEnd {c : Cursor} (h : c.PlaceOf text) :
    PlaceOf text ⟨c.position + c.rest.length, []⟩ := by
  have hparts : PlaceOf text ⟨c.position, c.rest ++ []⟩ := by rwa [List.append_nil]
  exact hparts.append

/-! ### The text at a place -/

theorem PlaceOf.isPrefix (h : PlaceOf text ⟨p, w ++ s⟩) : w <+: text.drop p := by
  have hrest : text.drop p = w ++ s := h
  exact hrest ▸ List.prefix_append w s

theorem PlaceOf.getElem?_eq (h : PlaceOf text ⟨p, d :: s⟩) : text[p]? = some d := by
  have hrest : text.drop p = d :: s := h
  rw [← List.head?_drop, hrest, List.head?_cons]

theorem PlaceOf.lt_length {c : Cursor} (h : c.PlaceOf text) (hrest : c.rest ≠ []) :
    c.position < text.length := by
  by_contra hge
  exact hrest (h ▸ List.drop_eq_nil_of_le (Nat.le_of_not_lt hge))

/-- The characters between two places. -/
theorem PlaceOf.between (h : PlaceOf text ⟨p, w ++ s⟩) :
    (text.take (p + w.length)).drop p = w := by
  have hrest : text.drop p = w ++ s := h
  rw [List.drop_take, Nat.add_sub_cancel_left, hrest, List.take_left]

/-- The run of characters of a class at a place. -/
theorem PlaceOf.takeWhile {q : Char → Bool} (h : PlaceOf text ⟨p, w ++ s⟩)
    (hw : ∀ c ∈ w, q c = true) (hs : ∀ c ∈ s.head?, q c = false) :
    (text.drop p).takeWhile q = w := by
  have hrest : text.drop p = w ++ s := h
  rw [hrest, takeWhile_run hw hs]

end Cursor

/-! ### The blanks at the end -/

/-- Only blanks are dropped from the end of a text. -/
theorem exists_blank_tail (text : List Char) :
    ∃ tail, text = trimEnd text ++ tail ∧ ∀ c ∈ tail, isBlank c = true := by
  refine ⟨(text.reverse.takeWhile isBlank).reverse, ?_, ?_⟩
  · rw [trimEnd, dropEnd, ← List.reverse_append, List.takeWhile_append_dropWhile,
      List.reverse_reverse]
  · intro c hc
    exact List.all_eq_true.mp List.all_takeWhile c (List.mem_reverse.mp hc)

end ScimQuery.Text

namespace ScimQuery

open Text (Cursor)

/-! ### Where reading starts -/

/-- The limits allow a text of this length. -/
def Limits.Allows (limits : Limits) (text : List Char) : Prop :=
  ∀ max ∈ limits.maxLength, text.length ≤ max

variable {limits : Limits} {cs : List Char} {c : Cursor} {e : Error}

/-- Reading starts at a place of the text without the blanks at its end. -/
theorem openText_eq_ok (h : openText limits cs = .ok c) :
    c = (Cursor.start (Text.trimEnd cs)).skipWhile Text.isBlank ∧ limits.Allows cs := by
  unfold openText at h
  split at h
  · rename_i hnone
    cases h
    exact ⟨rfl, by simp [Limits.Allows, hnone]⟩
  · rename_i max hmax
    split at h
    · cases h
    · rename_i hfits
      cases h
      exact ⟨rfl, by simpa [Limits.Allows, hmax] using hfits⟩

/-- Reading starts unless the text is too long. -/
theorem openText_eq_error (h : openText limits cs = .error e) :
    ∃ max ∈ limits.maxLength, max < cs.length ∧ e = .inputTooLong cs.length max := by
  unfold openText at h
  split at h
  · cases h
  · rename_i max hmax
    split at h
    · rename_i hlong
      cases h
      exact ⟨max, hmax, hlong, rfl⟩
    · cases h

theorem placeOf_of_openText (h : openText limits cs = .ok c) :
    c.PlaceOf (Text.trimEnd cs) := by
  obtain ⟨rfl, -⟩ := openText_eq_ok h
  exact (Text.Cursor.placeOf_start _).skipWhile _

/-! ### Texts without blanks around them -/

theorem start_of_trimmed (h : Text.Trimmed cs) :
    (Cursor.start (Text.trimEnd cs)).skipWhile Text.isBlank = ⟨0, cs⟩ := by
  have hstart : (⟨0, cs⟩ : Cursor).skipWhile Text.isBlank = ⟨0, cs⟩ :=
    Cursor.skipWhile_run (w := []) (by simp) h.1 0
  rw [Text.trimEnd_of_trimmed h]
  exact hstart

/-- A text without blanks around it is read from its start to its end. -/
theorem openText_of_allows (h : Text.Trimmed cs) (hallows : limits.Allows cs) :
    openText limits cs = .ok ⟨0, cs⟩ := by
  rw [openText, start_of_trimmed h]
  split
  · rfl
  · rename_i max hmax
    rw [if_neg (Nat.not_lt.mpr (hallows max hmax))]

theorem openText_of_trimmed (h : Text.Trimmed cs) (d : Nat) :
    openText { maxDepth := d } cs = .ok ⟨0, cs⟩ :=
  openText_of_allows h (by simp [Limits.Allows])

theorem eq_of_openText (h : Text.Trimmed cs) (hopen : openText limits cs = .ok c) :
    c = ⟨0, cs⟩ := by
  rw [(openText_eq_ok hopen).1, start_of_trimmed h]

end ScimQuery
