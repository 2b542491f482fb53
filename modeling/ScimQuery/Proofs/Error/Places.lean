import ScimQuery.Proofs.Text.Places

/-!
# Error — the places of an error

An error names places of the text that was read, and tells of them what stands there.
`Error.places` are these places and `Error.TrueOf` is what is told of them; an error points into
a text (`Error.PointsInto`) when its places are inside and what it tells is true.

* `PointsInto.of_placeless`: an error without a place points into every text.
* `PointsInto.trueOf_append`: what is told of a text stays true when blanks follow it.
* `Located`: the outcome of a reader is a result as described, or an error that points into the
  text.  Readers in a row keep to this if each of them does (`Located.bind`).
-/

namespace ScimQuery

open Text (Cursor isBlank isWordChar)

namespace Error

/-- The places that an error names.  The places of the error inside a word are counted from the
start of the word. -/
def places : Error → List Nat
  | unexpectedCharacter _ position tokenStart => [position, tokenStart]
  | invalidAttributePath position source => position :: source.places.map (position + ·)
  | e => e.position?.toList

/-- At the place there is a word, and an opening bracket after it. -/
def OpensAt (text : List Char) (p : Nat) : Prop :=
  ∃ w, w ≠ [] ∧ (∀ c ∈ w, isWordChar c = true) ∧ w ++ ['['] <+: text.drop p

/-- The word by itself is no path, for the given reason, under the given limits and under any
others that allow its length. -/
def RefusedAlone (limits : Limits) (word : List Char) (reason : Error) : Prop :=
  ∀ l : Limits, l = limits ∨ l.Allows word → parsePath l (String.ofList word) = .error reason

/-- What an error tells of its places is true of the text. -/
def TrueOf (limits : Limits) (text : List Char) : Error → Prop
  | unexpectedCharacter c p start =>
      text[p]? = some c ∧ start ≤ p ∧ ∀ d ∈ (text.take p).drop start, isWordChar d = true
  | openParenExpected p => ∃ c, text[p]? = some c ∧ isBlank c = false ∧ c ≠ '('
  | unmatchedCloseParen p => text[p]? = some ')'
  | unclosedBracket p => OpensAt text p
  | unexpectedToken token p => token.toList <+: text.drop p
  | unknownOperator operator p _ => operator.toList <+: text.drop p
  | invalidAttributePath p source =>
      RefusedAlone limits ((text.drop p).takeWhile isWordChar) source
  | _ => True

/-- The error is about places of the text, and true of them. -/
structure PointsInto (limits : Limits) (text : List Char) (e : Error) : Prop where
  /-- Every place has a character. -/
  inside : ∀ p ∈ e.places, p < text.length
  /-- What the error tells is true. -/
  trueOf : e.TrueOf limits text

variable {limits : Limits} {text tail : List Char} {e : Error}

/-- An error without a place tells nothing of the text. -/
theorem PointsInto.of_placeless (h : e.position? = none) : e.PointsInto limits text := by
  cases e with
  | unexpectedEndOfFilter => exact ⟨by simp [places, position?], trivial⟩
  | unexpectedEndOfPath => exact ⟨by simp [places, position?], trivial⟩
  | tooFewOperands count => exact ⟨by simp [places, position?], trivial⟩
  | inputTooLong length max => exact ⟨by simp [places, position?], trivial⟩
  | nestingTooDeep max => exact ⟨by simp [places, position?], trivial⟩
  | _ => cases h

/-- An error of one place points into the text by that place. -/
theorem PointsInto.of_place {p : Nat} (hplaces : e.places = [p]) (hp : p < text.length)
    (htrue : e.TrueOf limits text) : e.PointsInto limits text := by
  refine ⟨?_, htrue⟩
  rw [hplaces]
  simpa using hp

/-- A bracket that stands in the text may be the one that is not closed. -/
theorem OpensAt.pointsInto {p : Nat} (h : OpensAt text p) :
    (unclosedBracket p).PointsInto limits text := by
  refine .of_place rfl ?_ h
  obtain ⟨w, -, -, hprefix⟩ := h
  have hlength := hprefix.length_le
  rw [List.length_append, List.length_singleton, List.length_drop] at hlength
  omega

/-- The character at which a word stops may be one that no token holds. -/
theorem pointsInto_unexpectedCharacter {p : Nat} {w s : List Char} {d : Char}
    (hplace : Cursor.PlaceOf text ⟨p, w ++ d :: s⟩) (hw : ∀ c ∈ w, isWordChar c = true) :
    (unexpectedCharacter d (p + w.length) p).PointsInto limits text := by
  have hinside : p + w.length < text.length := hplace.append.lt_length (by simp)
  refine ⟨?_, hplace.append.getElem?_eq, Nat.le_add_right p w.length, ?_⟩
  · intro q hq
    rcases List.mem_pair.mp hq with rfl | rfl
    · exact hinside
    · exact Nat.lt_of_le_of_lt (Nat.le_add_right q w.length) hinside
  · rwa [hplace.between]

/-! ### Blanks after the text -/

theorem isPrefix_drop_append {w : List Char} {p : Nat} (hp : p < text.length)
    (h : w <+: text.drop p) (tail : List Char) : w <+: (text ++ tail).drop p := by
  rw [List.drop_append_of_le_length (Nat.le_of_lt hp)]
  exact h.trans (List.prefix_append _ tail)

/-- What is told of a text is true of it with blanks at its end, too. -/
theorem PointsInto.trueOf_append (h : e.PointsInto limits text)
    (htail : ∀ c ∈ tail, isBlank c = true) : e.TrueOf limits (text ++ tail) := by
  obtain ⟨hinside, htrue⟩ := h
  have hget {p : Nat} (hp : p < text.length) : (text ++ tail)[p]? = text[p]? :=
    List.getElem?_append_left hp
  cases e with
  | unexpectedCharacter c p start =>
      have hp : p < text.length := hinside p (by simp [places])
      obtain ⟨hc, hle, hword⟩ := htrue
      refine ⟨(hget hp).trans hc, hle, ?_⟩
      rwa [List.take_append_of_le_length (Nat.le_of_lt hp)]
  | openParenExpected p =>
      obtain ⟨c, hc, hother⟩ := htrue
      exact ⟨c, (hget (hinside p (by simp [places, position?]))).trans hc, hother⟩
  | unmatchedCloseParen p =>
      exact (hget (hinside p (by simp [places, position?]))).trans htrue
  | unclosedBracket p =>
      obtain ⟨w, hne, hw, hprefix⟩ := htrue
      have hp := hinside p (by simp [places, position?])
      exact ⟨w, hne, hw, isPrefix_drop_append hp hprefix tail⟩
  | unexpectedToken token p =>
      exact isPrefix_drop_append (hinside p (by simp [places, position?])) htrue tail
  | unknownOperator operator p suggestion =>
      exact isPrefix_drop_append (hinside p (by simp [places, position?])) htrue tail
  | invalidAttributePath p source =>
      have hp : p < text.length := hinside p (by simp [places])
      -- no blank belongs to a word, so that the word at the place is the same
      have hstop : ∀ d ∈ tail.head?, isWordChar d = false := by
        intro d hd
        have hblank := htail d (List.mem_of_mem_head? hd)
        by_contra hword
        rw [Text.isBlank_eq_false (by simpa using hword)] at hblank
        cases hblank
      have hword : ((text ++ tail).drop p).takeWhile isWordChar =
          (text.drop p).takeWhile isWordChar := by
        rw [List.drop_append_of_le_length (Nat.le_of_lt hp), Text.takeWhile_append_tail _ hstop]
      show RefusedAlone limits (((text ++ tail).drop p).takeWhile isWordChar) source
      rw [hword]
      exact htrue
  | _ => trivial

end Error

/-! ### The outcome of a reader -/

section

variable {limits : Limits} {text : List Char} {α β : Type} {P : α → Prop} {R : β → Prop}

/-- The outcome of reading in a text: a result as described, or an error that points into the
text. -/
def Located (limits : Limits) (text : List Char) (P : α → Prop) : Except Error α → Prop
  | .ok a => P a
  | .error e => e.PointsInto limits text

theorem Located.ok {x : Except Error α} {a : α} (h : Located limits text P x) (hx : x = .ok a) :
    P a := by
  subst hx
  exact h

theorem Located.error {x : Except Error α} {e : Error} (h : Located limits text P x)
    (hx : x = .error e) : e.PointsInto limits text := by
  subst hx
  exact h

theorem Located.bind {x : Except Error α} {f : α → Except Error β} (hx : Located limits text P x)
    (hf : ∀ a, P a → Located limits text R (f a)) : Located limits text R (x >>= f) := by
  cases x with
  | ok a => exact hf a hx
  | error e => exact hx

end

end ScimQuery
