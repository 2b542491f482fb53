import ScimQuery.Filter.Phrase
import ScimQuery.Proofs.Json.Integer
import ScimQuery.Proofs.Literal

/-!
# Literal — strings and whole numbers as they are spelled

* `scan_spelled`: a string is found in every spelling that JSON has for it, with its own length in
  characters.  It may hold the characters that end other values, and anything may follow it.
* `scan_integer`: digits are found as the whole number that they spell, or they are refused.  A
  number that does not fit is not rounded, although the reader of numbers would round it.
-/

namespace ScimQuery.Literal

open Json (isSpace isDigit)

/-! ### Strings -/

/-- **A string is found in every spelling of it**, whatever follows, with the length of the spaces
in front of it, of its spelling and of a space after it. -/
theorem scan_spelled {s : String} {w e : List Char} (hw : ∀ c ∈ w, c ∈ [' ', '\t', '\n', '\r'])
    (he : Json.SpellsString s e) (tail : List Char) :
    scan (w ++ e ++ tail) =
      .ok (some ⟨.string s,
        if tail.head? = some ' ' then w.length + e.length + 1 else w.length + e.length⟩) := by
  have hspaces : ∀ c ∈ w, isSpace c = true := fun c hc => isSpace_iff_mem.mpr (hw c hc)
  have hjudge := judge_spelled he tail
  obtain ⟨body, rfl, -⟩ := he
  exact scan_of_judge hspaces (by decide) hjudge

/-- A surrogate pair with digits of either case, a letter by its number, a short escape, and a
character that ends other values; a word follows at once. -/
theorem scan_spelled_mixed :
    (∀ c ∈ ['\t', ' '], c ∈ [' ', '\t', '\n', '\r']) ∧
      Json.SpellsString "é)😀a/" "\"é)\\uD83d\\uDE00\\u0061\\/\"".toList ∧
      scan (['\t', ' '] ++ "\"é)\\uD83d\\uDE00\\u0061\\/\"".toList ++ "and".toList) =
        .ok (some ⟨.string "é)😀a/", 26⟩) := by
  have hw : ∀ c ∈ ['\t', ' '], c ∈ [' ', '\t', '\n', '\r'] := by simp
  have hface : Json.SpellsNumber '😀' "D83d\\uDE00".toList :=
    .surrogates (by decide) (Json.hexValue4?_eq_some_iff.mp (by decide))
      (Json.hexValue4?_eq_some_iff.mp (by decide))
  have hletter : Json.SpellsNumber 'a' "0061".toList :=
    .basic (Json.hexValue4?_eq_some_iff.mp (by decide))
  have hbody : Json.SpellsAll "é)😀a/".toList "é)\\uD83d\\uDE00\\u0061\\/".toList :=
    .cons (e := ['é']) (.raw (by decide) (by decide) (by decide)) <|
    .cons (e := [')']) (.raw (by decide) (by decide) (by decide)) <|
    .cons (.number hface) <| .cons (.number hletter) <| .cons (.short (by decide)) .nil
  have he : Json.SpellsString "é)😀a/" "\"é)\\uD83d\\uDE00\\u0061\\/\"".toList := ⟨_, rfl, hbody⟩
  exact ⟨hw, he, scan_spelled hw he "and".toList⟩

/-! ### Whole numbers -/

variable {i : Json.Integer}

theorem isInteger_chars (i : Json.Integer) : isInteger i.chars = true := by
  have hdigits : (!i.digits.isEmpty && i.digits.all isDigit) = true := by
    simpa using ⟨i.ne_nil, i.decimal⟩
  rw [Json.Integer.chars]
  split
  · exact hdigits
  · unfold isInteger
    split
    · rename_i hminus
      cases i.decimal '-' (by simp [hminus])
    · exact hdigits

/-- Digits that are judged to be a value fit: no binary64 number is taken for them. -/
theorem fits_of_judge {value : Value} {spelling : List Char}
    (h : judge i.chars = .ok (value, spelling)) : i.Fits := by
  obtain ⟨-, hread, hrange⟩ := judge_numeral (fun c hc => i.isNumeralChar_of_mem hc) h
  obtain ⟨c, cs, hchars⟩ := i.exists_chars
  have hc := i.mem_chars (c := c) (by simp [hchars])
  rw [hchars] at hread
  obtain ⟨m, hnumeral, hvalue⟩ := (Json.readValue_number hc).mp hread
  rw [← hchars] at hnumeral
  cases m with
  | double d => simp [hvalue, isDouble, Number.isDouble, isInteger_chars] at hrange
  | whole w => exact (Json.Integer.readNumeral_iff.mp hnumeral).1

/-- **Digits are found as the number that they spell, or they are refused.** -/
theorem scan_integer (i : Json.Integer) {tail : List Char}
    (htail : ∀ d ∈ tail.head?, d ∈ [' ', ')', ']']) :
    (i.Fits → ∃ w : Number.Whole, w.val = i.value ∧
      scan (i.chars ++ tail) = .ok (some ⟨.number (.whole w),
        if tail.head? = some ' ' then i.chars.length + 1 else i.chars.length⟩)) ∧
    (¬ i.Fits → ∃ fault, scan (i.chars ++ tail) = .error fault ∧
      ∀ p, Phrase.readValue ⟨p, i.chars ++ tail⟩ = .error (.invalidValue p fault.message)) := by
  have hends : ∀ d ∈ tail.head?, isEnd d = true := fun d hd => isEnd_iff_mem.mpr (htail d hd)
  constructor
  · intro hfits
    have hscan := scan_chars (v := .number (.whole ⟨i.value, hfits.range⟩)) (by rintro d ⟨⟩) hends
    rw [whole_chars, hfits.intChars_value] at hscan
    exact ⟨_, rfl, hscan⟩
  · intro hfits
    obtain ⟨c, cs, hchars⟩ := i.exists_chars
    have hall : ∀ d ∈ c :: cs, Json.isNumeralChar d = true :=
      fun d hd => i.isNumeralChar_of_mem (hchars ▸ hd)
    have hspace := (plain_of_isNumeralChar (hall c (by simp))).1
    have hextent := extent_numeral hall hends
    have hne : extent (c :: (cs ++ tail)) ≠ [] := by simp [hextent]
    have hscan := scan_run (w := []) (by simp) hspace hne
    rw [hextent, ← hchars, List.nil_append, ← List.cons_append, ← hchars] at hscan
    cases hjudge : judge i.chars with
    | ok found => exact absurd (fits_of_judge hjudge) hfits
    | error fault =>
        rw [hjudge] at hscan
        refine ⟨fault, hscan, fun p => ?_⟩
        rw [Phrase.readValue, hscan]
        rfl

/-- The least number that fits, and the one below it, in front of a parenthesis. -/
theorem scan_integer_least :
    (∀ d ∈ [')'].head?, d ∈ [' ', ')', ']']) ∧
      (∃ w : Number.Whole, w.val = -0x8000000000000000 ∧
        scan ("-9223372036854775808".toList ++ [')']) = .ok (some ⟨.number (.whole w), 20⟩)) ∧
      ∃ fault, scan ("-9223372036854775809".toList ++ [')']) = .error fault := by
  have htail : ∀ d ∈ [')'].head?, d ∈ [' ', ')', ']'] := by simp
  have hleast := (scan_integer
    ⟨true, "9223372036854775808".toList, by decide, by simp⟩ htail).1
      ⟨by decide, by decide, by decide⟩
  have hbelow := (scan_integer
    ⟨true, "9223372036854775809".toList, by decide, by simp⟩ htail).2
      fun hfits => absurd hfits.range (by decide)
  obtain ⟨w, hw, hscan⟩ := hleast
  obtain ⟨fault, hfault, -⟩ := hbelow
  exact ⟨htail, ⟨w, hw, hscan⟩, fault, hfault⟩

end ScimQuery.Literal
