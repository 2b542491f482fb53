import ScimQuery.Json.Reader

/-!
# Json — whole numbers are read back

The digits of a whole number that fits 64 bits are read back as that number, with its sign
(`readNumeral_intChars`): all of them have room in a significand, and none of them is a leading
zero.  No rounding takes place.
-/

namespace ScimQuery.Json

open Number (digitChars intChars)

theorem isDigit_of_mem_digitChars {n : Nat} {c : Char} (h : c ∈ digitChars n) :
    isDigit c = true :=
  Nat.isDigit_of_mem_toDigits (by decide) (by decide) h

/-! ### Digits -/

theorem le_ofDigitChars (ds : List Char) (n : Nat) : n ≤ Nat.ofDigitChars 10 ds n := by
  rw [Nat.ofDigitChars_eq_ofDigitChars_zero]
  have hpow : 0 < 10 ^ ds.length := Nat.pow_pos (by decide)
  have := Nat.le_mul_of_pos_left n hpow
  omega

/-- Digits whose number stays within the limit are all gathered. -/
theorem gather_of_le {limit : Nat} (ds : List Char) (n : Nat)
    (h : Nat.ofDigitChars 10 ds n ≤ limit) :
    gather limit n ds = (Nat.ofDigitChars 10 ds n, []) := by
  induction ds generalizing n with
  | nil => rfl
  | cons d ds ih =>
      have hcons : Nat.ofDigitChars 10 (d :: ds) n =
          Nat.ofDigitChars 10 ds (n * 10 + digitValue d) := by
        rw [Nat.ofDigitChars_cons, Nat.mul_comm]
        rfl
      rw [hcons] at h ⊢
      rw [gather, if_pos (Nat.le_trans (le_ofDigitChars ds _) h), ih _ h]

/-- A positive number has no leading zero. -/
theorem exists_digitChars {n : Nat} (h : 0 < n) :
    ∃ d ds, digitChars n = d :: ds ∧ d ≠ '0' := by
  induction n using Nat.strongRecOn with
  | ind n ih =>
      by_cases hn : n < 10
      · refine ⟨n.digitChar, [], Nat.toDigits_of_lt_base hn, ?_⟩
        have hdigit : ∀ m < 10, 0 < m → m.digitChar ≠ '0' := by decide
        exact hdigit n hn h
      · obtain ⟨d, ds, hdigits, hd⟩ := ih (n / 10) (by omega) (by omega)
        refine ⟨d, ds ++ [(n % 10).digitChar], ?_, hd⟩
        rw [digitChars, Nat.toDigits_of_base_le (by decide) (by omega)]
        rw [digitChars] at hdigits
        rw [hdigits]
        rfl

/-! ### Numerals -/

theorem readUnsigned_digitChars {n : Nat} (h : n ≤ maxSignificand) (negative : Bool) :
    readUnsigned negative (digitChars n) = ofSignificand negative n [] := by
  rcases Nat.eq_zero_or_pos n with rfl | hpos
  · rfl
  · obtain ⟨d, ds, hdigits, hd⟩ := exists_digitChars hpos
    have hall : ∀ c ∈ d :: ds, isDigit c = true := fun c hc =>
      isDigit_of_mem_digitChars (hdigits ▸ hc)
    have hgather : gather maxSignificand 0 (d :: ds) = (n, []) := by
      have hvalue : Nat.ofDigitChars 10 (d :: ds) 0 = n := by
        rw [← hdigits]
        exact Nat.ofDigitChars_ten_toDigits
      rw [gather_of_le (d :: ds) 0 (by rw [hvalue]; exact h), hvalue]
    have htake : (d :: ds).takeWhile isDigit = d :: ds := by
      rw [← List.append_nil (d :: ds), List.takeWhile_append_of_pos hall]
      rfl
    have hdrop : (d :: ds).dropWhile isDigit = [] := by
      rw [← List.append_nil (d :: ds), List.dropWhile_append_of_pos hall]
      rfl
    rw [hdigits, readUnsigned, if_pos (hall d (by simp)), if_neg hd, htake, hgather, hdrop]
    rfl

theorem natAbs_le_maxSignificand (w : Number.Whole) : w.val.natAbs ≤ maxSignificand := by
  have hmax : maxSignificand = 2 ^ 64 - 1 := rfl
  have := w.inRange
  omega

theorem ofSignificand_whole (w : Number.Whole) :
    ofSignificand (decide (w.val < 0)) w.val.natAbs [] = .ok (.whole w, []) := by
  have hint : (if decide (w.val < 0) = true then -(w.val.natAbs : Int) else w.val.natAbs) =
      w.val := by
    by_cases hneg : w.val < 0
    · rw [if_pos (decide_eq_true hneg)]
      omega
    · rw [if_neg (by simpa using hneg)]
      omega
  have hzero : ¬ (decide (w.val < 0) = true ∧ w.val.natAbs = 0) := by
    rintro ⟨hneg, habs⟩
    have := of_decide_eq_true hneg
    omega
  rw [ofSignificand]
  simp only [hint, Number.Whole.ofInt?_eq_some_iff.mpr rfl, if_neg hzero]

/-- **A whole number is read back from its digits.** -/
theorem readNumeral_intChars (w : Number.Whole) :
    readNumeral (intChars w.val) = .ok (.whole w, []) := by
  have hread := ofSignificand_whole w
  rw [intChars]
  by_cases hneg : w.val < 0
  · rw [decide_eq_true hneg] at hread
    rw [if_pos hneg, readNumeral, readUnsigned_digitChars (natAbs_le_maxSignificand w), hread]
  · rw [decide_eq_false hneg] at hread
    rw [if_neg hneg]
    have hminus : ∀ rest, digitChars w.val.natAbs ≠ '-' :: rest := by
      intro rest h
      have := isDigit_of_mem_digitChars (n := w.val.natAbs) (c := '-') (by simp [h])
      cases this
    unfold readNumeral
    split
    · rename_i rest h
      exact absurd h (hminus rest)
    · rw [readUnsigned_digitChars (natAbs_le_maxSignificand w), hread]

/-- A whole number is written with digits and a minus sign. -/
theorem mem_intChars {n : Int} {c : Char} (h : c ∈ intChars n) : c = '-' ∨ isDigit c = true := by
  unfold intChars at h
  split at h
  · rcases List.mem_cons.mp h with rfl | h
    · exact .inl rfl
    · exact .inr (isDigit_of_mem_digitChars h)
  · exact .inr (isDigit_of_mem_digitChars h)

/-- The characters that a numeral is not made of. -/
theorem ne_of_mem_numeral {c d : Char} (hc : c = '-' ∨ isDigit c = true)
    (hd : (d == '-' || isDigit d) = false) : c ≠ d := by
  rintro rfl
  rcases hc with rfl | hc
  · cases hd
  · simp [hc] at hd

theorem intChars_ne_nil (n : Int) : intChars n ≠ [] := by
  unfold intChars
  split
  · exact List.cons_ne_nil _ _
  · exact Nat.toDigits_ne_nil

end ScimQuery.Json
