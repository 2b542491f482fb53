import ScimQuery.Proofs.Json.Whole

/-!
# Number — the characters of a number

The text of a binary64 number is made of digits, points, signs and the letter `e`
(`Double.isNumeralChar_of_mem`), however it is laid out, and is not empty.
-/

namespace ScimQuery

open Json (isDigit isDigit_of_mem_digitChars)

/-- May `c` stand in the text of a number? -/
def Json.isNumeralChar (c : Char) : Bool :=
  isDigit c || c == '-' || c == '+' || c == '.' || c == 'e'

theorem Json.isNumeralChar_of_isDigit {c : Char} (h : isDigit c = true) :
    isNumeralChar c = true := by
  simp [isNumeralChar, h]

theorem Json.isNumeralChar_of_integer {c : Char} (h : c = '-' ∨ isDigit c = true) :
    isNumeralChar c = true := by
  rcases h with rfl | h
  · rfl
  · exact isNumeralChar_of_isDigit h

theorem Json.ne_of_isNumeralChar {c : Char} {others : List Char} (hc : isNumeralChar c = true)
    (h : others.all (fun d => !isNumeralChar d) = true) : ∀ d ∈ others, c ≠ d := by
  rintro d hd rfl
  have hother := List.all_eq_true.mp h c hd
  simp [hc] at hother

theorem Text.mem_of_mem_dropEnd {p : Char → Bool} {cs : List Char} {c : Char}
    (h : c ∈ dropEnd p cs) : c ∈ cs :=
  List.mem_reverse.mp ((List.dropWhile_sublist p).subset (List.mem_reverse.mp h))

namespace Number

open Json (isNumeralChar isNumeralChar_of_isDigit)

theorem NumberLayout.isNumeralChar_of_mem {layout : NumberLayout} {d : Decimal} {c : Char}
    (h : c ∈ layout.chars d) : isNumeralChar c = true := by
  have hdigits : ∀ c ∈ Text.dropEnd (· == '0') (digitChars d.digits), isNumeralChar c = true :=
    fun c hc => isNumeralChar_of_isDigit (isDigit_of_mem_digitChars (Text.mem_of_mem_dropEnd hc))
  have hzeros {n : Nat} : ∀ c ∈ List.replicate n '0', isNumeralChar c = true := by
    intro c hc
    rw [List.eq_of_mem_replicate hc]
    decide
  unfold NumberLayout.chars at h
  generalize Text.dropEnd (· == '0') (digitChars d.digits) = digits at h hdigits
  dsimp only at h
  split at h
  · split at h
    · rcases List.mem_cons.mp h with rfl | h
      · decide
      · rcases List.mem_cons.mp h with rfl | h
        · decide
        · rcases List.mem_append.mp h with h | h
          · exact hzeros c h
          · exact hdigits c h
    · rcases List.mem_append.mp h with h | h
      · rcases List.mem_append.mp h with h | h
        · exact hdigits c (List.mem_of_mem_take h)
        · exact hzeros c h
      · rcases List.mem_cons.mp h with rfl | h
        · decide
        · split at h
          · obtain rfl := List.mem_singleton.mp h
            decide
          · exact hdigits c (List.mem_of_mem_drop h)
  · rcases List.mem_append.mp h with h | h
    · split at h
      · exact hdigits c h
      · rcases List.mem_cons.mp h with rfl | h
        · exact hdigits c (by simp)
        · rcases List.mem_cons.mp h with rfl | h
          · decide
          · exact hdigits c (by simp [h])
      · cases h
    · rcases List.mem_cons.mp h with rfl | h
      · decide
      · rcases List.mem_cons.mp h with rfl | h
        · split <;> decide
        · exact isNumeralChar_of_isDigit (isDigit_of_mem_digitChars h)

theorem NumberLayout.chars_ne_nil (layout : NumberLayout) (d : Decimal) : layout.chars d ≠ [] := by
  unfold NumberLayout.chars
  dsimp only
  split
  · split <;> simp
  · simp

/-- **The text of a binary64 number** has the characters of numerals only. -/
theorem Double.isNumeralChar_of_mem {d : Double} {c : Char} (h : c ∈ d.chars) :
    isNumeralChar c = true := by
  unfold Double.chars at h
  rcases List.mem_append.mp h with h | h
  · split at h
    · obtain rfl := List.mem_singleton.mp h
      decide
    · cases h
  · split at h
    · have hzero : ['0', '.', '0'].all isNumeralChar = true := by decide
      exact List.all_eq_true.mp hzero c h
    · exact NumberLayout.isNumeralChar_of_mem h

theorem Double.chars_ne_nil (d : Double) : d.chars ≠ [] := by
  unfold Double.chars
  refine List.append_ne_nil_of_right_ne_nil _ ?_
  split
  · simp
  · exact NumberLayout.chars_ne_nil _ _

end Number

end ScimQuery
