import ScimQuery.Json.Fault
import ScimQuery.Number.Basic

/-!
# Json — Numeral

Numbers as they are written.  A numeral without fraction and exponent that fits 64 bits is the
whole number it spells; every other numeral, `-0` among them, is a binary64 number.

That number is found in two steps.  The digits are gathered into a significand of 64 bits
(`gather`): once the next digit has no room, the remaining digits before the point only raise
the exponent and those after it are dropped.  Then the significand is rounded and multiplied or
divided by a rounded power of ten (`scale`), which is rounded again.  So the result is near the
decimal, but need not be the binary64 number nearest to it.
-/

namespace ScimQuery.Json

open Number

/-- Is `c` one of the digits `0` to `9`? -/
def isDigit (c : Char) : Bool :=
  '0' ≤ c && c ≤ '9'

/-- The value of a digit. -/
def digitValue (c : Char) : Nat :=
  c.toNat - '0'.toNat

/-- Appends digits to a number while it stays at most `limit`: the number reached, and the
digits that had no room. -/
def gather (limit : Nat) : Nat → List Char → Nat × List Char
  | n, [] => (n, [])
  | n, d :: ds =>
    if n * 10 + digitValue d ≤ limit then gather limit (n * 10 + digitValue d) ds
    else (n, d :: ds)

/-- The largest significand. -/
def maxSignificand : Nat := 0xffffffffffffffff

/-- The largest written exponent. -/
def maxExponent : Nat := 0x7fffffff

/-- The largest power of ten that is multiplied or divided by at once. -/
def maxPower : Nat := 308

/-- The magnitude `f`, scaled by a power of ten.  `none` means that it is out of range. -/
def scale (f : Nat) (exponent : Int) : Option Nat :=
  if exponent.natAbs ≤ maxPower then
    if 0 ≤ exponent then
      let g := Magnitude.mul f (Magnitude.pow10 exponent.natAbs)
      if g < Magnitude.infinity then some g else none
    else some (Magnitude.div f (Magnitude.pow10 exponent.natAbs))
  else if f = 0 then some 0
  else if 0 ≤ exponent then none
  else scale (Magnitude.div f (Magnitude.pow10 maxPower)) (exponent + maxPower)
termination_by exponent.natAbs
decreasing_by
  simp only [maxPower] at *
  omega

/-- The binary64 number of a significand and a power of ten, in front of `rest`. -/
def ofParts (negative : Bool) (significand : Nat) (exponent : Int) (rest : List Char) :
    Except Fault (Number × List Char) :=
  match (scale (Magnitude.nearest significand 1) exponent).bind (Double.ofMagnitude? negative) with
  | some d => .ok (.double d, rest)
  | none => .error (.before .numberOutOfRange rest)

/-- The number of a numeral without fraction and exponent whose digits all had room. -/
def ofSignificand (negative : Bool) (significand : Nat) (rest : List Char) :
    Except Fault (Number × List Char) :=
  let n : Int := if negative then -significand else significand
  match Whole.ofInt? n with
  | some w => if negative ∧ significand = 0 then ofParts true 0 0 rest else .ok (.whole w, rest)
  | none => ofParts negative significand 0 rest

/-- The digits of an exponent after its mark and sign. -/
def readExponentDigits (negative : Bool) (significand : Nat) (exponent : Int) (minus : Bool)
    (cs : List Char) : Except Fault (Number × List Char) :=
  match cs with
  | [] => .error (.before .endInValue [])
  | c :: _ =>
    if isDigit c then
      let rest := cs.dropWhile isDigit
      match gather maxExponent 0 (cs.takeWhile isDigit) with
      | (n, []) => ofParts negative significand (if minus then exponent - n else exponent + n) rest
      | (_, _ :: more) =>
        if significand ≠ 0 ∧ ¬ minus then .error (.before .numberOutOfRange (more ++ rest))
        else .ok (.double (.zero negative), rest)
    else .error (.on .invalidNumber cs)

/-- An exponent after its mark. -/
def readExponent (negative : Bool) (significand : Nat) (exponent : Int) (cs : List Char) :
    Except Fault (Number × List Char) :=
  match cs with
  | '+' :: rest => readExponentDigits negative significand exponent false rest
  | '-' :: rest => readExponentDigits negative significand exponent true rest
  | _ => readExponentDigits negative significand exponent false cs

/-- The end of a numeral that has a fraction or too many digits: its exponent, if any. -/
def readScaled (negative : Bool) (significand : Nat) (exponent : Int) (cs : List Char) :
    Except Fault (Number × List Char) :=
  match cs with
  | 'e' :: rest => readExponent negative significand exponent rest
  | 'E' :: rest => readExponent negative significand exponent rest
  | _ => ofParts negative significand exponent cs

/-- A fraction after its point. -/
def readFraction (negative : Bool) (significand : Nat) (exponent : Int) (cs : List Char) :
    Except Fault (Number × List Char) :=
  let digits := cs.takeWhile isDigit
  let rest := cs.dropWhile isDigit
  if digits.isEmpty then
    .error (.on (if cs.isEmpty then .endInValue else .invalidNumber) cs)
  else
    let (n, dropped) := gather maxSignificand significand digits
    readScaled negative n (exponent - (digits.length - dropped.length : Nat)) rest

/-- What follows the digits before the point. -/
def readTail (negative : Bool) (significand : Nat) (dropped : Nat) (cs : List Char) :
    Except Fault (Number × List Char) :=
  match cs with
  | '.' :: rest => readFraction negative significand dropped rest
  | 'e' :: rest => readExponent negative significand dropped rest
  | 'E' :: rest => readExponent negative significand dropped rest
  | _ =>
    if dropped = 0 then ofSignificand negative significand cs
    else ofParts negative significand dropped cs

/-- A numeral after its sign. -/
def readUnsigned (negative : Bool) (cs : List Char) : Except Fault (Number × List Char) :=
  match cs with
  | [] => .error (.before .endInValue [])
  | c :: more =>
    if isDigit c then
      if c = '0' then
        if (more.head?.map isDigit).getD false then .error (.on .invalidNumber more)
        else readTail negative 0 0 more
      else
        let (n, dropped) := gather maxSignificand 0 (cs.takeWhile isDigit)
        readTail negative n dropped.length (cs.dropWhile isDigit)
    else .error (.on .invalidNumber cs)

/-- A numeral. -/
def readNumeral (cs : List Char) : Except Fault (Number × List Char) :=
  match cs with
  | '-' :: rest => readUnsigned true rest
  | _ => readUnsigned false cs

/-! ### What is left of a text behind a numeral -/

theorem length_dropWhile_le (p : Char → Bool) (cs : List Char) :
    (cs.dropWhile p).length ≤ cs.length :=
  (List.dropWhile_sublist p).length_le

/-- May `c` stand in a numeral? -/
def isMark (c : Char) : Bool :=
  isDigit c || c == '-' || c == '+' || c == '.' || c == 'e' || c == 'E'

/-- The text `rest` is what is left of `cs` behind characters of a numeral. -/
def Leaves (cs rest : List Char) : Prop :=
  ∃ w, w ++ rest = cs ∧ ∀ c ∈ w, isMark c = true

theorem Leaves.refl (cs : List Char) : Leaves cs cs :=
  ⟨[], rfl, by simp⟩

theorem Leaves.cons {c : Char} {cs rest : List Char} (hc : isMark c = true)
    (h : Leaves cs rest) : Leaves (c :: cs) rest := by
  obtain ⟨w, rfl, hw⟩ := h
  exact ⟨c :: w, rfl, List.forall_mem_cons.mpr ⟨hc, hw⟩⟩

theorem Leaves.trans {cs ds rest : List Char} (h : Leaves cs ds) (h' : Leaves ds rest) :
    Leaves cs rest := by
  obtain ⟨v, rfl, hv⟩ := h
  obtain ⟨w, rfl, hw⟩ := h'
  exact ⟨v ++ w, List.append_assoc v w rest, List.forall_mem_append.mpr ⟨hv, hw⟩⟩

theorem Leaves.suffix {cs rest : List Char} (h : Leaves cs rest) : rest <:+ cs := by
  obtain ⟨w, rfl, -⟩ := h
  exact List.suffix_append w rest

theorem isMark_of_isDigit {c : Char} (h : isDigit c = true) : isMark c = true := by
  simp [isMark, h]

theorem leaves_digits (cs : List Char) : Leaves cs (cs.dropWhile isDigit) := by
  refine ⟨cs.takeWhile isDigit, List.takeWhile_append_dropWhile, ?_⟩
  intro c hc
  exact isMark_of_isDigit (List.all_eq_true.mp List.all_takeWhile c hc)

theorem ofParts_rest {negative : Bool} {significand : Nat} {exponent : Int}
    {cs rest : List Char} {n : Number}
    (h : ofParts negative significand exponent cs = .ok (n, rest)) : rest = cs := by
  unfold ofParts at h
  split at h
  · cases h; rfl
  · cases h

theorem ofSignificand_rest {negative : Bool} {significand : Nat} {cs rest : List Char}
    {n : Number} (h : ofSignificand negative significand cs = .ok (n, rest)) : rest = cs := by
  unfold ofSignificand at h
  dsimp only at h
  split at h
  · split at h
    · exact ofParts_rest h
    · cases h; rfl
  · exact ofParts_rest h

theorem readExponentDigits_leaves {negative minus : Bool} {significand : Nat} {exponent : Int}
    {cs rest : List Char} {n : Number}
    (h : readExponentDigits negative significand exponent minus cs = .ok (n, rest)) :
    Leaves cs rest := by
  unfold readExponentDigits at h
  split at h
  · cases h
  · split at h
    · dsimp only at h
      split at h
      · rw [ofParts_rest h]; exact leaves_digits _
      · split at h
        · cases h
        · cases h; exact leaves_digits _
    · cases h

theorem readExponent_leaves {negative : Bool} {significand : Nat} {exponent : Int}
    {cs rest : List Char} {n : Number}
    (h : readExponent negative significand exponent cs = .ok (n, rest)) : Leaves cs rest := by
  unfold readExponent at h
  split at h
  · exact (readExponentDigits_leaves h).cons rfl
  · exact (readExponentDigits_leaves h).cons rfl
  · exact readExponentDigits_leaves h

theorem readScaled_leaves {negative : Bool} {significand : Nat} {exponent : Int}
    {cs rest : List Char} {n : Number}
    (h : readScaled negative significand exponent cs = .ok (n, rest)) : Leaves cs rest := by
  unfold readScaled at h
  split at h
  · exact (readExponent_leaves h).cons rfl
  · exact (readExponent_leaves h).cons rfl
  · obtain rfl := ofParts_rest h; exact .refl _

theorem readFraction_leaves {negative : Bool} {significand : Nat} {exponent : Int}
    {cs rest : List Char} {n : Number}
    (h : readFraction negative significand exponent cs = .ok (n, rest)) : Leaves cs rest := by
  unfold readFraction at h
  dsimp only at h
  split at h
  · cases h
  · exact (leaves_digits cs).trans (readScaled_leaves h)

theorem readTail_leaves {negative : Bool} {significand dropped : Nat}
    {cs rest : List Char} {n : Number}
    (h : readTail negative significand dropped cs = .ok (n, rest)) : Leaves cs rest := by
  unfold readTail at h
  split at h
  · exact (readFraction_leaves h).cons rfl
  · exact (readExponent_leaves h).cons rfl
  · exact (readExponent_leaves h).cons rfl
  · split at h
    · obtain rfl := ofSignificand_rest h; exact .refl _
    · obtain rfl := ofParts_rest h; exact .refl _

/-- A numeral has a digit. -/
theorem readUnsigned_leaves {negative : Bool} {cs rest : List Char} {n : Number}
    (h : readUnsigned negative cs = .ok (n, rest)) :
    ∃ c more, cs = c :: more ∧ isMark c = true ∧ Leaves more rest := by
  unfold readUnsigned at h
  split at h
  · cases h
  · rename_i c more
    split at h
    · rename_i hc
      refine ⟨c, more, rfl, isMark_of_isDigit hc, ?_⟩
      split at h
      · split at h
        · cases h
        · exact readTail_leaves h
      · dsimp only at h
        have htail := readTail_leaves h
        simp only [List.dropWhile_cons, hc, if_true] at htail
        exact (leaves_digits more).trans htail
    · cases h

theorem readNumeral_leaves {cs rest : List Char} {n : Number}
    (h : readNumeral cs = .ok (n, rest)) :
    ∃ c more, cs = c :: more ∧ isMark c = true ∧ Leaves more rest := by
  unfold readNumeral at h
  split at h
  · rename_i more
    obtain ⟨c, digits, rfl, hc, hrest⟩ := readUnsigned_leaves h
    exact ⟨'-', c :: digits, rfl, rfl, hrest.cons hc⟩
  · exact readUnsigned_leaves h

theorem readNumeral_length {cs rest : List Char} {n : Number}
    (h : readNumeral cs = .ok (n, rest)) : rest.length < cs.length := by
  obtain ⟨c, more, rfl, -, hrest⟩ := readNumeral_leaves h
  exact Nat.lt_succ_of_le hrest.suffix.length_le

end ScimQuery.Json
