import ScimQuery.Proofs.Json.Reader
import ScimQuery.Proofs.Text.Runs

/-!
# Json — a value does not depend on what follows it

A reader takes a text off the front of what it is given, and what is left does not count: in front
of any other text the same is taken (`Parses`).  The digits of a number might go on, so that there
the other text must start with a character that no number has (`Unmarked`).

* `readNumeral_parses`: numbers, one lemma for each part of a numeral.
* `readValue_parses`: values that are neither a list nor an object.
-/

namespace ScimQuery.Json

open Number

variable {α : Type}

/-- The reader takes the text `w` for `a`, in front of every text that may follow. -/
def Parses (P : List Char → Prop) (read : List Char → Except Fault (α × List Char))
    (w : List Char) (a : α) : Prop :=
  ∀ s, P s → read (w ++ s) = .ok (a, s)

/-- What was read is what the reader takes for it, in front of what is left. -/
def Takes (P : List Char → Prop) (read : List Char → Except Fault (α × List Char))
    (cs : List Char) (a : α) (rest : List Char) : Prop :=
  ∃ w, cs = w ++ rest ∧ Parses P read w a

/-- The text does not go on with a character of a number. -/
def Unmarked (s : List Char) : Prop :=
  ∀ d ∈ s.head?, isMark d = false

variable {P : List Char → Prop} {read read' : List Char → Except Fault (α × List Char)}
  {cs rest w : List Char} {a : α} {c : Char}

theorem Takes.cons (hread : ∀ s, read' (c :: s) = read s) (h : Takes P read cs a rest) :
    Takes P read' (c :: cs) a rest := by
  obtain ⟨w, rfl, hw⟩ := h
  exact ⟨c :: w, rfl, fun s hs => (hread (w ++ s)).trans (hw s hs)⟩

/-- A reader that takes nothing off. -/
theorem takes_nil (hread : ∀ s, P s → read s = .ok (a, s)) (hrest : rest = cs) :
    Takes P read cs a rest :=
  ⟨[], hrest.symm, hread⟩

/-! ### Numbers -/

theorem Unmarked.digit {s : List Char} (h : Unmarked s) : ∀ d ∈ s.head?, isDigit d = false := by
  intro d hd
  have := h d hd
  simp only [isMark, Bool.or_eq_false_iff] at this
  exact this.1.1.1.1.1

variable {negative minus : Bool} {significand dropped : Nat} {exponent : Int} {n : Number}

theorem ofParts_eq_ok (h : ofParts negative significand exponent cs = .ok (n, rest)) :
    rest = cs ∧ ∀ s, ofParts negative significand exponent s = .ok (n, s) := by
  unfold ofParts at h ⊢
  split at h
  · cases h
    exact ⟨rfl, fun s => rfl⟩
  · cases h

theorem ofSignificand_eq_ok (h : ofSignificand negative significand cs = .ok (n, rest)) :
    rest = cs ∧ ∀ s, ofSignificand negative significand s = .ok (n, s) := by
  unfold ofSignificand at h ⊢
  dsimp only at h ⊢
  split at h
  · split at h
    · rename_i hzero
      obtain ⟨hrest, hs⟩ := ofParts_eq_ok h
      exact ⟨hrest, fun s => (if_pos hzero).trans (hs s)⟩
    · rename_i hzero
      cases h
      exact ⟨rfl, fun s => if_neg hzero⟩
  · exact ofParts_eq_ok h

/-- Where no digit came behind `w`, none comes when another text follows it. -/
theorem Unmarked.stops {s : List Char} (hs : Unmarked s)
    (h : ∀ d ∈ (w ++ rest).head?, isDigit d = false) : ∀ d ∈ (w ++ s).head?, isDigit d = false := by
  cases w with
  | nil => exact hs.digit
  | cons c w => exact h

/-- A run of digits and the text behind it. -/
theorem exists_digits (cs : List Char) :
    ∃ digits s, cs = digits ++ s ∧ (∀ c ∈ digits, isDigit c = true) ∧
      (∀ d ∈ s.head?, isDigit d = false) :=
  Text.exists_run isDigit cs

/-- The digits of an exponent: the first of them, and what is done with all of them. -/
theorem readExponentDigits_digits {digits s : List Char} (hne : digits ≠ [])
    (hdigits : ∀ c ∈ digits, isDigit c = true) (hs : ∀ d ∈ s.head?, isDigit d = false) :
    readExponentDigits negative significand exponent minus (digits ++ s) =
      if (gather maxExponent 0 digits).2 = [] then
        ofParts negative significand
          (if minus then exponent - (gather maxExponent 0 digits).1
            else exponent + (gather maxExponent 0 digits).1) s
      else if significand ≠ 0 ∧ ¬ minus then
        .error (.before .numberOutOfRange ((gather maxExponent 0 digits).2.tail ++ s))
      else .ok (.double (.zero negative), s) := by
  obtain ⟨c, more, rfl⟩ := List.exists_cons_of_ne_nil hne
  have hc : isDigit c = true := hdigits c (by simp)
  rewrite [List.cons_append, readExponentDigits, if_pos hc, ← List.cons_append,
    Text.takeWhile_run hdigits hs, Text.dropWhile_run hdigits hs]
  cases gather maxExponent 0 (c :: more) with
  | mk m left =>
      cases left with
      | nil => exact (if_pos rfl).symm
      | cons d left => exact (if_neg (by simp)).symm

theorem readExponentDigits_parses
    (h : readExponentDigits negative significand exponent minus cs = .ok (n, rest)) :
    Takes Unmarked (readExponentDigits negative significand exponent minus) cs n rest := by
  obtain ⟨digits, s, rfl, hdigits, hs⟩ := exists_digits cs
  have hne : digits ≠ [] := by
    rintro rfl
    cases s with
    | nil => cases h
    | cons d s => simp [readExponentDigits, hs d rfl] at h
  rw [readExponentDigits_digits hne hdigits hs] at h
  have htakes : rest = s ∧ Parses Unmarked
      (readExponentDigits negative significand exponent minus) digits n := by
    split at h
    · rename_i hall
      obtain ⟨hrest, hparts⟩ := ofParts_eq_ok h
      refine ⟨hrest, fun s' hs' => ?_⟩
      rw [readExponentDigits_digits hne hdigits hs'.digit, if_pos hall]
      exact hparts s'
    · rename_i hmore
      split at h
      · cases h
      · rename_i hzero
        cases h
        refine ⟨rfl, fun s' hs' => ?_⟩
        rw [readExponentDigits_digits hne hdigits hs'.digit, if_neg hmore, if_neg hzero]
  exact ⟨digits, by rw [htakes.1], htakes.2⟩

theorem readExponent_parses
    (h : readExponent negative significand exponent cs = .ok (n, rest)) :
    Takes Unmarked (readExponent negative significand exponent) cs n rest := by
  unfold readExponent at h
  split at h
  · exact (readExponentDigits_parses h).cons fun _ => rfl
  · exact (readExponentDigits_parses h).cons fun _ => rfl
  · rename_i hplus hminus
    obtain ⟨w, rfl, hw⟩ := readExponentDigits_parses h
    refine ⟨w, rfl, ?_⟩
    intro s hs
    have hread := hw s hs
    unfold readExponent
    split
    · rename_i heq
      rw [heq] at hread
      cases hread
    · rename_i heq
      rw [heq] at hread
      cases hread
    · exact hread

theorem readScaled_unmarked {s : List Char} (hs : Unmarked s) :
    readScaled negative significand exponent s = ofParts negative significand exponent s := by
  unfold readScaled
  split
  · cases hs 'e' rfl
  · cases hs 'E' rfl
  · rfl

theorem readScaled_parses
    (h : readScaled negative significand exponent cs = .ok (n, rest)) :
    Takes Unmarked (readScaled negative significand exponent) cs n rest := by
  unfold readScaled at h
  split at h
  · exact (readExponent_parses h).cons fun _ => rfl
  · exact (readExponent_parses h).cons fun _ => rfl
  · obtain ⟨hrest, hparts⟩ := ofParts_eq_ok h
    exact takes_nil (fun s hs => (readScaled_unmarked hs).trans (hparts s)) hrest

/-- A run of digits in front of another character is read as a whole. -/
theorem readFraction_digits {digits s : List Char} (hdigits : ∀ c ∈ digits, isDigit c = true)
    (hs : ∀ d ∈ s.head?, isDigit d = false) (hne : digits ≠ []) :
    readFraction negative significand exponent (digits ++ s) =
      readScaled negative (gather maxSignificand significand digits).1
        (exponent -
          (digits.length - (gather maxSignificand significand digits).2.length : Nat)) s := by
  rw [readFraction, Text.takeWhile_run hdigits hs, Text.dropWhile_run hdigits hs,
    if_neg (by simpa using hne)]

theorem readFraction_parses
    (h : readFraction negative significand exponent cs = .ok (n, rest)) :
    Takes Unmarked (readFraction negative significand exponent) cs n rest := by
  obtain ⟨digits, s, rfl, hdigits, hs⟩ := exists_digits cs
  have hne : digits ≠ [] := by
    rintro rfl
    have htake : ([] ++ s).takeWhile isDigit = [] := Text.takeWhile_run hdigits hs
    rw [readFraction, htake] at h
    cases h
  rw [readFraction_digits hdigits hs hne] at h
  obtain ⟨w, rfl, hw⟩ := readScaled_parses h
  refine ⟨digits ++ w, (List.append_assoc _ _ _).symm, ?_⟩
  intro s' hs'
  rw [List.append_assoc, readFraction_digits hdigits (hs'.stops hs) hne]
  exact hw s' hs'

theorem readTail_unmarked {s : List Char} (hs : Unmarked s) :
    readTail negative significand dropped s =
      if dropped = 0 then ofSignificand negative significand s
      else ofParts negative significand dropped s := by
  unfold readTail
  split
  · cases hs '.' rfl
  · cases hs 'e' rfl
  · cases hs 'E' rfl
  · rfl

theorem readTail_parses (h : readTail negative significand dropped cs = .ok (n, rest)) :
    Takes Unmarked (readTail negative significand dropped) cs n rest := by
  unfold readTail at h
  split at h
  · exact (readFraction_parses h).cons fun _ => rfl
  · exact (readExponent_parses h).cons fun _ => rfl
  · exact (readExponent_parses h).cons fun _ => rfl
  · split at h
    · rename_i hdropped
      obtain ⟨hrest, hs⟩ := ofSignificand_eq_ok h
      refine takes_nil (fun s hmark => ?_) hrest
      rw [readTail_unmarked hmark, if_pos hdropped, hs]
    · rename_i hdropped
      obtain ⟨hrest, hs⟩ := ofParts_eq_ok h
      refine takes_nil (fun s hmark => ?_) hrest
      rw [readTail_unmarked hmark, if_neg hdropped, hs]

/-- Digits in front of another character, of which the first is no leading zero. -/
theorem readUnsigned_digits {digits s : List Char} (hdigits : ∀ d ∈ c :: digits, isDigit d = true)
    (hzero : c ≠ '0') (hs : ∀ d ∈ s.head?, isDigit d = false) :
    readUnsigned negative (c :: digits ++ s) =
      readTail negative (gather maxSignificand 0 (c :: digits)).1
        (gather maxSignificand 0 (c :: digits)).2.length s := by
  rw [List.cons_append, readUnsigned, if_pos (hdigits c (by simp)), if_neg hzero,
    ← List.cons_append, Text.takeWhile_run hdigits hs, Text.dropWhile_run hdigits hs]

theorem readUnsigned_zero {s : List Char} (hs : ∀ d ∈ s.head?, isDigit d = false) :
    readUnsigned negative ('0' :: s) = readTail negative 0 0 s := by
  rw [readUnsigned, if_pos (by decide), if_pos rfl]
  cases s with
  | nil => rfl
  | cons d s => simp [hs d rfl]

theorem readUnsigned_parses (h : readUnsigned negative cs = .ok (n, rest)) :
    Takes Unmarked (readUnsigned negative) cs n rest := by
  obtain ⟨digits, s, rfl, hdigits, hs⟩ := exists_digits cs
  cases digits with
  | nil =>
      cases s with
      | nil => cases h
      | cons d s => simp [readUnsigned, hs d rfl] at h
  | cons c digits =>
      by_cases hzero : c = '0'
      · -- a leading zero is the only digit in front of the point
        subst hzero
        have hhead : ∀ d ∈ (digits ++ s).head?, isDigit d = false := by
          intro d hd
          refine Bool.eq_false_iff.mpr fun hdigit => ?_
          have hmore : ((digits ++ s).head?.map isDigit).getD false = true := by
            rw [Option.mem_def.mp hd]
            exact hdigit
          rw [List.cons_append, readUnsigned, if_pos (by decide), if_pos rfl, if_pos hmore] at h
          cases h
        rw [List.cons_append, readUnsigned_zero hhead] at h
        obtain ⟨w, hparts, hw⟩ := readTail_parses h
        refine ⟨'0' :: w, by rw [List.cons_append, hparts, List.cons_append], ?_⟩
        intro s' hs'
        rw [List.cons_append, readUnsigned_zero (hs'.stops (hparts ▸ hhead))]
        exact hw s' hs'
      · rw [readUnsigned_digits hdigits hzero hs] at h
        obtain ⟨w, rfl, hw⟩ := readTail_parses h
        refine ⟨c :: digits ++ w, (List.append_assoc _ _ _).symm, ?_⟩
        intro s' hs'
        rw [List.append_assoc, readUnsigned_digits hdigits hzero (hs'.stops hs)]
        exact hw s' hs'

/-- **A number does not depend on what follows it**, unless that could belong to it. -/
theorem readNumeral_parses (h : readNumeral cs = .ok (n, rest)) :
    Takes Unmarked readNumeral cs n rest := by
  unfold readNumeral at h
  split at h
  · exact (readUnsigned_parses h).cons fun _ => rfl
  · obtain ⟨w, rfl, hw⟩ := readUnsigned_parses h
    refine ⟨w, rfl, ?_⟩
    intro s hs
    have hread := hw s hs
    unfold readNumeral
    split
    · rename_i heq
      rw [heq] at hread
      cases hread
    · exact hread

/-! ### Values -/

/-- **A value that is neither a list nor an object does not depend on what follows it.**  Only a
number could go on; a string shows its own end. -/
theorem readValue_parses {v : Value} (h : readValue cs = .ok (v.toJson, rest)) :
    Takes (fun s => '"' ∈ cs.head? ∨ Unmarked s) readValue cs v.toJson rest := by
  cases readValue_scalar.mp h with
  | @word w _ hw => exact ⟨w, rfl, fun s _ => readValue_word hw s⟩
  | @string ds body hbody =>
      refine ⟨'"' :: (body ++ ['"']), by simp, fun s _ => ?_⟩
      rw [List.cons_append, List.append_assoc]
      exact (Scalar.string hbody).readValue
  | @number c cs m hc hnumeral =>
      have hquote : c ≠ '"' := ne_of_mem_numeral hc rfl
      have hshorter := readNumeral_length hnumeral
      obtain ⟨w, hcs, hw⟩ := readNumeral_parses hnumeral
      cases w with
      | nil => exact absurd (congrArg List.length hcs) (Nat.ne_of_gt hshorter)
      | cons d w =>
          cases hcs
          refine ⟨c :: w, rfl, fun s hs => (readValue_number hc).mpr ⟨m, hw s ?_, rfl⟩⟩
          exact hs.resolve_left (by simpa using hquote)

end ScimQuery.Json
