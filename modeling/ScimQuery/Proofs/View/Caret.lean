import ScimQuery.Proofs.Filter.Refusal
import ScimQuery.View.Caret

/-!
# View — where the caret stands

The caret under a refused text stands at a character of the text, or just after the text if the
text ends too early; the two refusals that are for the limits have no caret
(`Error.caret?_of_parse`).

* `Error.caret?_eq_none_iff`: the errors without a caret.
* `Error.caret?_mem_places`: but for the two ends of the text, the place of the caret is one that
  the error names, so that it is inside the text if the error points into the text.
* `Error.RefusedAlone.pointsInto`: an error inside a word points into the word.
-/

namespace ScimQuery.Error

open Text (Cursor isWordChar)

/-! ### The errors with a caret -/

/-- The text ends too early. -/
def AtEnd (e : Error) : Prop :=
  e = .unexpectedEndOfFilter ∨ e = .unexpectedEndOfPath

variable {limits : Limits} {text word : List Char} {e : Error} {n : Nat}

theorem position?_mem_places (h : n ∈ e.position?) : n ∈ e.places := by
  cases e with
  | unexpectedCharacter c position tokenStart =>
      cases h
      exact List.mem_cons_self
  | invalidAttributePath position source =>
      cases h
      exact List.mem_cons_self
  | _ => exact Option.mem_toList.mpr h

theorem caret?_eq_none_iff (h : e.NotOfJoining) :
    e.caret? text = none ↔ (∃ length max, e = .inputTooLong length max) ∨
      ∃ max, e = .nestingTooDeep max := by
  cases e with
  | tooFewOperands count => exact absurd rfl (h count)
  | _ => simp [caret?, position?]

theorem caret?_of_atEnd (h : e.AtEnd) : e.caret? text = some (Text.trimEnd text).length := by
  rcases h with rfl | rfl <;> rfl

/-- But for the ends of the text, the caret stands at a place that the error names. -/
theorem caret?_mem_places (hn : n ∈ e.caret? text) (h : ¬ e.AtEnd) : n ∈ e.places := by
  cases e with
  | unexpectedEndOfFilter => exact absurd (.inl rfl) h
  | unexpectedEndOfPath => exact absurd (.inr rfl) h
  | invalidAttributePath position source =>
      cases hn
      cases hsource : source.position? with
      | none => exact List.mem_cons_self
      | some p =>
          refine List.mem_cons_of_mem position (List.mem_map_of_mem ?_)
          exact position?_mem_places hsource
  | _ => exact position?_mem_places hn

/-! ### The character at the caret -/

/-- An error inside a word points into the word. -/
theorem RefusedAlone.pointsInto (h : RefusedAlone limits word e)
    (hword : ∀ c ∈ word, isWordChar c = true) : e.PointsInto limits word := by
  have hallows : Limits.Allows {} word := by simp [Limits.Allows]
  refine Path.ofWord_pointsInto limits ?_
  rw [← Path.parsePath_word hword hallows]
  exact h {} (.inr hallows)

/-- The character that an error is about, inside a word or not. -/
def blamed? : Error → Option Char
  | unexpectedCharacter c _ _ => some c
  | invalidAttributePath _ (unexpectedCharacter c _ _) => some c
  | _ => none

/-- **The character that is blamed stands at the caret.** -/
theorem TrueOf.blamed {c : Char} (h : e.TrueOf limits text) (hn : n ∈ e.caret? text)
    (hc : c ∈ e.blamed?) : text[n]? = some c := by
  match e with
  | unexpectedCharacter d p start =>
      cases hn
      cases hc
      exact h.1
  | invalidAttributePath q (unexpectedCharacter d p start) =>
      cases hn
      cases hc
      have hrefused : RefusedAlone limits ((text.drop q).takeWhile isWordChar) _ := h
      have hword : ∀ c ∈ (text.drop q).takeWhile isWordChar, isWordChar c = true :=
        fun c hc => List.all_eq_true.mp List.all_takeWhile c hc
      obtain ⟨-, hchar, -⟩ := hrefused.pointsInto hword
      -- the word is the beginning of what stands at its place
      have hdrop : (text.drop q)[p]? = some c := by
        obtain ⟨hp, -⟩ := List.getElem?_eq_some_iff.mp hchar
        rw [← List.takeWhile_append_dropWhile (p := isWordChar) (l := text.drop q),
          List.getElem?_append_left hp, hchar]
      rwa [List.getElem?_drop] at hdrop

/-- **Where the caret stands.**  A text that is refused has no caret exactly when it is too long or
too deep.  The caret stands at a character of the text without the blanks at its end, or just after
the last one, and there exactly when the text ends too early; a character that is blamed, in a word
or not, stands at the caret. -/
theorem caret?_of_parse (limits : Limits) (text : String) (e : Error)
    (h : parseFilter limits text = .error e ∨ parsePath limits text = .error e) :
    (e.caret? text.toList = none ↔
      (∃ length max, e = .inputTooLong length max) ∨ ∃ max, e = .nestingTooDeep max) ∧
    ∀ n ∈ e.caret? text.toList,
      n ≤ (Text.trimEnd text.toList).length ∧
      (n = (Text.trimEnd text.toList).length ↔
        e = .unexpectedEndOfFilter ∨ e = .unexpectedEndOfPath) ∧
      ∀ c p start,
        (e = .unexpectedCharacter c p start ∨
          ∃ q, e = .invalidAttributePath q (.unexpectedCharacter c p start)) →
        text.toList[n]? = some c := by
  refine ⟨caret?_eq_none_iff (parse_joins h), ?_⟩
  intro n hn
  have hblamed : ∀ c ∈ e.blamed?, text.toList[n]? = some c :=
    fun c hc => (trueOf_of_parse h).blamed hn hc
  have hchar : ∀ c p start, (e = .unexpectedCharacter c p start ∨
      ∃ q, e = .invalidAttributePath q (.unexpectedCharacter c p start)) →
      text.toList[n]? = some c := by
    rintro c p start (rfl | ⟨q, rfl⟩)
    · exact hblamed c rfl
    · exact hblamed c rfl
  by_cases hend : e.AtEnd
  · rw [caret?_of_atEnd hend] at hn
    cases hn
    exact ⟨Nat.le_refl _, iff_of_true rfl hend, hchar⟩
  · have hinside := (pointsInto_of_parse h).inside n (caret?_mem_places hn hend)
    exact ⟨Nat.le_of_lt hinside, iff_of_false (Nat.ne_of_lt hinside) hend, hchar⟩

/-- A dot behind the colon of a schema, in a word inside a value filter: the caret stands under the
dot, six characters into the word. -/
theorem caret?_of_parse_word :
    let text := "x[a pr and urn:a:.b eq 1] "
    let e := Error.invalidAttributePath 11 (.unexpectedCharacter '.' 6 0)
    parseFilter {} text = .error e ∧ e.caret? text.toList = some 17 ∧
      17 ≤ (Text.trimEnd text.toList).length ∧ text.toList[17]? = some '.' := by
  have h : parseFilter {} "x[a pr and urn:a:.b eq 1] " =
      .error (.invalidAttributePath 11 (.unexpectedCharacter '.' 6 0)) := by
    rw [← Text.refusal?_eq_some_iff]
    decide +kernel
  obtain ⟨hle, -, hchar⟩ := (caret?_of_parse _ _ _ (.inl h)).2 17 rfl
  exact ⟨h, rfl, hle, hchar '.' 6 0 (.inr ⟨11, rfl⟩)⟩

end ScimQuery.Error
