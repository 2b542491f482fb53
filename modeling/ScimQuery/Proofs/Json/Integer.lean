import ScimQuery.Proofs.Json.Local

/-!
# Json — whole numbers as they are spelled

Digits, perhaps behind a minus sign (`Integer`), spell a whole number.  The reader gives this
number if it fits 64 bits and is spelled without a needless zero or sign (`Integer.Fits`), and no
whole number otherwise (`Integer.readNumeral_iff`): digits that have no room, and `-0`, make a
binary64 number, and a needless zero is refused.

A number that is spelled so is written again as it was spelled (`Integer.Fits.intChars_value`).
-/

namespace ScimQuery.Json

open Number (Whole digitChars intChars)

/-- Decimal digits, perhaps behind a minus sign. -/
structure Integer where
  negative : Bool
  digits : List Char
  ne_nil : digits ≠ []
  decimal : ∀ c ∈ digits, c.isDigit = true

namespace Integer

/-- The text. -/
def chars (i : Integer) : List Char :=
  if i.negative then '-' :: i.digits else i.digits

/-- The number that the digits spell. -/
def magnitude (i : Integer) : Nat :=
  Nat.ofDigitChars 10 i.digits 0

/-- The number that the text spells. -/
def value (i : Integer) : Int :=
  if i.negative then -i.magnitude else i.magnitude

/-- The number fits 64 bits, and its text has no needless zero or sign. -/
structure Fits (i : Integer) : Prop where
  /-- A zero is in front of no other digit. -/
  leading : i.digits.head? = some '0' → i.digits.length = 1
  signed : i.chars ≠ ['-', '0']
  /-- It is at least the least signed number and at most the largest unsigned one. -/
  range : -0x8000000000000000 ≤ i.value ∧ i.value ≤ 0xffffffffffffffff

end Integer

variable {limit n : Nat} {c : Char} {ds rest : List Char} {negative : Bool} {w : Whole}

/-! ### Digits are written again -/

theorem digitChar_digitValue (h : isDigit c = true) :
    digitValue c < 10 ∧ Nat.digitChar (digitValue c) = c := by
  have hbounds : '0'.toNat ≤ c.toNat ∧ c.toNat ≤ '9'.toNat := by
    simpa [isDigit, Char.le_def, UInt32.le_iff_toNat_le] using h
  have hlt : digitValue c < 10 := by
    have hnine : '9'.toNat = '0'.toNat + 9 := rfl
    rw [digitValue]
    omega
  refine ⟨hlt, Char.toNat_inj.mp ?_⟩
  rw [Nat.toNat_digitChar_of_lt_ten hlt, digitValue]
  have hzero : '0'.toNat = 48 := rfl
  omega

theorem digitChars_digitValue (h : isDigit c = true) : digitChars (digitValue c) = [c] := by
  obtain ⟨hlt, hchar⟩ := digitChar_digitValue h
  rw [digitChars, Nat.toDigits_of_lt_base hlt, hchar]

theorem digitValue_pos (h : isDigit c = true) (hzero : c ≠ '0') : 0 < digitValue c := by
  refine Nat.pos_of_ne_zero fun hvalue => hzero ?_
  rw [← (digitChar_digitValue h).2, hvalue]
  rfl

/-- More digits behind those of a number are written behind them. -/
theorem digitChars_ofDigitChars_append (hn : 0 < n) (hdigits : ∀ c ∈ ds, isDigit c = true) :
    digitChars (Nat.ofDigitChars 10 ds n) = digitChars n ++ ds := by
  induction ds generalizing n with
  | nil => exact (List.append_nil _).symm
  | cons d ds ih =>
      rw [List.forall_mem_cons] at hdigits
      have hlt := (digitChar_digitValue hdigits.1).1
      have hsplit : digitChars (10 * n + digitValue d) = digitChars n ++ digitChars (digitValue d) :=
        (Nat.toDigits_append_toDigits (by decide) hn hlt).symm
      have hcons : Nat.ofDigitChars 10 (d :: ds) n =
          Nat.ofDigitChars 10 ds (10 * n + digitValue d) := rfl
      rw [hcons, ih (by omega) hdigits.2, hsplit, digitChars_digitValue hdigits.1,
        List.append_assoc, List.singleton_append]

/-- Digits without a needless zero are written again. -/
theorem digitChars_ofDigitChars (hdigits : ∀ d ∈ c :: ds, isDigit d = true)
    (hzero : c = '0' → ds = []) : digitChars (Nat.ofDigitChars 10 (c :: ds) 0) = c :: ds := by
  have hcons : Nat.ofDigitChars 10 (c :: ds) 0 = Nat.ofDigitChars 10 ds (digitValue c) := by
    rw [Nat.ofDigitChars_cons, Nat.mul_zero, Nat.zero_add]
    rfl
  rw [List.forall_mem_cons] at hdigits
  rw [hcons]
  by_cases hc : c = '0'
  · rw [hzero hc]
    exact digitChars_digitValue hdigits.1
  · rw [digitChars_ofDigitChars_append (digitValue_pos hdigits.1 hc) hdigits.2,
      digitChars_digitValue hdigits.1, List.singleton_append]

namespace Integer

variable {i : Integer}

theorem exists_digits (i : Integer) : ∃ c ds, i.digits = c :: ds :=
  List.exists_cons_of_ne_nil i.ne_nil

theorem Fits.digitChars_magnitude (h : i.Fits) : digitChars i.magnitude = i.digits := by
  obtain ⟨c, ds, hdigits⟩ := i.exists_digits
  have hall := i.decimal
  have hleading := h.leading
  rw [hdigits] at hall hleading
  rw [magnitude, hdigits]
  refine digitChars_ofDigitChars hall ?_
  rintro rfl
  simpa using hleading rfl

/-- **A number is written as it was spelled**, if it was spelled without a needless zero. -/
theorem Fits.intChars_value (h : i.Fits) : intChars i.value = i.chars := by
  have hdigits := h.digitChars_magnitude
  have hsigned := h.signed
  rw [value, chars]
  rw [chars] at hsigned
  by_cases hnegative : i.negative = true
  · rw [if_pos hnegative] at hsigned
    have hpos : i.magnitude ≠ 0 := by
      intro hzero
      rw [hzero] at hdigits
      exact hsigned (by rw [← hdigits]; rfl)
    rw [if_pos hnegative, if_pos hnegative, intChars, if_pos (by omega), Int.natAbs_neg,
      Int.natAbs_natCast, hdigits]
  · rw [if_neg hnegative, if_neg hnegative, intChars, if_neg (by omega), Int.natAbs_natCast,
      hdigits]

end Integer

/-! ### Digits without room -/

/-- Digits that are all gathered make their number. -/
theorem gather_of_all (h : (gather limit n ds).2 = []) :
    (gather limit n ds).1 = Nat.ofDigitChars 10 ds n := by
  induction ds generalizing n with
  | nil => rfl
  | cons d ds ih =>
      rw [gather] at h ⊢
      split at h
      · rename_i hroom
        rw [if_pos hroom, ih h, Nat.ofDigitChars_cons, Nat.mul_comm]
        rfl
      · cases h

/-- A significand with a power of ten makes no whole number. -/
theorem ofParts_ne_whole {significand : Nat} {exponent : Int} :
    ofParts negative significand exponent ds ≠ .ok (.whole w, rest) := by
  unfold ofParts
  split <;> simp

theorem ofSignificand_eq_whole (h : ofSignificand negative n ds = .ok (.whole w, rest)) :
    w.val = (if negative then -(n : Int) else n) ∧ ¬ (negative = true ∧ n = 0) := by
  unfold ofSignificand at h
  dsimp only at h
  split at h
  · rename_i hw
    split at h
    · exact absurd h ofParts_ne_whole
    · rename_i hzero
      cases h
      exact ⟨Whole.ofInt?_eq_some_iff.mp hw, hzero⟩
  · exact absurd h ofParts_ne_whole

/-- Digits that are read as a whole number are read as the number that they spell. -/
theorem readUnsigned_eq_whole (hdigits : ∀ d ∈ c :: ds, isDigit d = true)
    (h : readUnsigned negative (c :: ds) = .ok (.whole w, rest)) :
    (c = '0' → ds = [] ∧ negative = false) ∧
      w.val = (if negative then -(Nat.ofDigitChars 10 (c :: ds) 0 : Int)
        else Nat.ofDigitChars 10 (c :: ds) 0) := by
  by_cases hc : c = '0'
  · subst hc
    cases ds with
    | nil =>
        obtain ⟨hvalue, hsigned⟩ := ofSignificand_eq_whole h
        exact ⟨fun _ => ⟨rfl, by simpa using hsigned⟩, hvalue⟩
    | cons d ds =>
        have hd : isDigit d = true := hdigits d (by simp)
        simp [readUnsigned, hd, show isDigit '0' = true from rfl] at h
  · have hnothing : Unmarked [] := by
      rintro d ⟨⟩
    rw [← List.append_nil (c :: ds), readUnsigned_digits hdigits hc hnothing.digit,
      readTail_unmarked hnothing] at h
    refine ⟨fun h => absurd h hc, ?_⟩
    split at h
    · rename_i hall
      have hgather := gather_of_all (List.length_eq_zero_iff.mp hall)
      rw [hgather] at h
      exact (ofSignificand_eq_whole h).1
    · exact absurd h ofParts_ne_whole

namespace Integer

variable {i : Integer}

theorem mem_chars (i : Integer) (h : c ∈ i.chars) : c = '-' ∨ isDigit c = true := by
  rw [chars] at h
  split at h
  · exact (List.mem_cons.mp h).imp_right (i.decimal c)
  · exact .inr (i.decimal c h)

theorem exists_chars (i : Integer) : ∃ c cs, i.chars = c :: cs := by
  rw [chars]
  split
  · exact ⟨'-', i.digits, rfl⟩
  · exact i.exists_digits

theorem isNumeralChar_of_mem (i : Integer) (h : c ∈ i.chars) : isNumeralChar c = true :=
  isNumeralChar_of_integer (i.mem_chars h)

theorem readNumeral_chars (i : Integer) :
    readNumeral i.chars = readUnsigned i.negative i.digits := by
  obtain ⟨c, ds, hdigits⟩ := i.exists_digits
  have hc : isDigit c = true := i.decimal c (by simp [hdigits])
  rw [chars, hdigits]
  cases i.negative with
  | true => rfl
  | false =>
      unfold readNumeral
      split
      · rename_i hminus
        cases hminus
        cases hc
      · rfl

/-- **Digits are read as a whole number just if it fits**, and then as the one that they spell. -/
theorem readNumeral_iff :
    readNumeral i.chars = .ok (.whole w, []) ↔ i.Fits ∧ w.val = i.value := by
  constructor
  · intro h
    rw [readNumeral_chars] at h
    obtain ⟨c, ds, hdigits⟩ := i.exists_digits
    have hall := i.decimal
    rw [hdigits] at h hall
    obtain ⟨hzero, hvalue⟩ := readUnsigned_eq_whole hall h
    rw [← hdigits] at hvalue
    change w.val = i.value at hvalue
    refine ⟨⟨?_, ?_, ?_⟩, hvalue⟩
    · intro hhead
      rw [hdigits] at hhead ⊢
      rw [(hzero (Option.some.inj hhead)).1]
      rfl
    · intro hchars
      rw [chars, hdigits] at hchars
      split at hchars
      · rename_i hnegative
        cases hchars
        rw [(hzero rfl).2] at hnegative
        cases hnegative
      · cases hchars
        cases hall '-' (by simp)
    · exact hvalue ▸ w.inRange
  · rintro ⟨hfits, hvalue⟩
    rw [← hfits.intChars_value, ← hvalue]
    exact readNumeral_intChars w

end Integer

end ScimQuery.Json
