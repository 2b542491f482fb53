import Mathlib.Tactic.SplitIfs
import ScimQuery.Json.Quoted

/-!
# Json — the spellings of a string

A character may stand in a string by itself, by its short escape or by its number (`Spells`), and a
string is spelled by any spelling of each of its characters (`SpellsAll`).  A number has four
hexadecimal digits of either case (`Hex4`); beyond the basic plane there are two of them.

* `hexValue4?_eq_some_iff`: the reader knows just these digits.
* `ofSurrogates_eq_iff`: the two numbers of a character beyond the basic plane.
* `spellsString_quote`: what is written for a string is a spelling of it.
-/

namespace ScimQuery.Json

/-! ### Spellings -/

/-- The hexadecimal digit of `n`, in lower or in upper case. -/
def IsHexDigit (n : Nat) (c : Char) : Prop :=
  n < 16 ∧ (c = hexDigit n ∨ c = (hexDigit n).toUpper)

/-- A number in four hexadecimal digits. -/
inductive Hex4 : Nat → List Char → Prop where
  | digits {m₁ m₂ m₃ m₄ : Nat} {x y z w : Char} (hx : IsHexDigit m₁ x) (hy : IsHexDigit m₂ y)
      (hz : IsHexDigit m₃ z) (hw : IsHexDigit m₄ w) :
      Hex4 (((m₁ * 16 + m₂) * 16 + m₃) * 16 + m₄) [x, y, z, w]

/-- The spellings of a character by its number, behind the first `\u`. -/
inductive SpellsNumber (c : Char) : List Char → Prop where
  | basic {digits : List Char} (h : Hex4 c.toNat digits) : SpellsNumber c digits
  /-- The surrogates have ten bits each of what the number is more than 0x10000. -/
  | surrogates {high low : List Char} (hplane : 0x10000 ≤ c.toNat)
      (hhigh : Hex4 (0xD800 + (c.toNat - 0x10000) / 0x400) high)
      (hlow : Hex4 (0xDC00 + (c.toNat - 0x10000) % 0x400) low) :
      SpellsNumber c (high ++ '\\' :: 'u' :: low)

/-- The letters of the short escapes, and what they stand for. -/
def shortEscapes : List (Char × Char) :=
  [('"', '"'), ('\\', '\\'), ('/', '/'), ('b', '\x08'), ('f', '\x0c'), ('n', '\n'), ('r', '\r'),
    ('t', '\t')]

/-- The spellings of a character in a string. -/
inductive Spells (c : Char) : List Char → Prop where
  | raw (hquote : c ≠ '"') (hbackslash : c ≠ '\\') (hcontrol : 0x20 ≤ c.toNat) : Spells c [c]
  | short {letter : Char} (h : (letter, c) ∈ shortEscapes) : Spells c ['\\', letter]
  | number {e : List Char} (h : SpellsNumber c e) : Spells c ('\\' :: 'u' :: e)

/-- The spellings of a string, without its quotes. -/
inductive SpellsAll : List Char → List Char → Prop where
  | nil : SpellsAll [] []
  | cons {c : Char} {cs e es : List Char} (h : Spells c e) (hs : SpellsAll cs es) :
      SpellsAll (c :: cs) (e ++ es)

/-- The spellings of a string between quotes. -/
def SpellsString (s : String) (e : List Char) : Prop :=
  ∃ body, e = '"' :: (body ++ ['"']) ∧ SpellsAll s.toList body

variable {n high low : Nat} {c letter x y z w : Char} {e : List Char}

/-! ### Hexadecimal digits -/

theorem toNat_lt_of_hexValue? (h : hexValue? c = some n) : c.toNat < 128 := by
  have hle {d : Char} (hd : d.toNat < 128) (hc : c ≤ d) : c.toNat < 128 :=
    Nat.lt_of_le_of_lt (UInt32.le_iff_toNat_le.mp (Char.le_def.mp hc)) hd
  unfold hexValue? at h
  split_ifs at h with hdigit hlower hupper
  · exact hle (by decide) hdigit.2
  · exact hle (by decide) hlower.2
  · exact hle (by decide) hupper.2

theorem hexValue?_eq_some_iff : hexValue? c = some n ↔ IsHexDigit n c := by
  constructor
  · intro h
    have hall : ∀ k < 128, ∀ m, hexValue? (Char.ofNat k) = some m → m < 16 ∧
        (Char.ofNat k = hexDigit m ∨ Char.ofNat k = (hexDigit m).toUpper) := by decide +kernel
    have hdigit := hall c.toNat (toNat_lt_of_hexValue? h) n
    rw [Char.ofNat_toNat] at hdigit
    exact hdigit h
  · have hall : ∀ m < 16, hexValue? (hexDigit m) = some m ∧
        hexValue? (hexDigit m).toUpper = some m := by decide
    rintro ⟨hn, rfl | rfl⟩
    · exact (hall n hn).1
    · exact (hall n hn).2

theorem isHexDigit_hexDigit (h : n < 16) : IsHexDigit n (hexDigit n) :=
  ⟨h, .inl rfl⟩

/-- **Hexadecimal digits** have the number that is written with them. -/
theorem hexValue4?_eq_some_iff : hexValue4? x y z w = some n ↔ Hex4 n [x, y, z, w] := by
  constructor
  · intro h
    simp only [hexValue4?, Option.bind_eq_bind, Option.bind_eq_some_iff, hexValue?_eq_some_iff]
      at h
    obtain ⟨m₁, hx, m₂, hy, m₃, hz, m₄, hw, hn⟩ := h
    cases hn
    exact .digits hx hy hz hw
  · rintro ⟨hx, hy, hz, hw⟩
    simp [hexValue4?, hexValue?_eq_some_iff.mpr hx, hexValue?_eq_some_iff.mpr hy,
      hexValue?_eq_some_iff.mpr hz, hexValue?_eq_some_iff.mpr hw]

theorem Hex4.exists_digits (h : Hex4 n e) : ∃ x y z w, e = [x, y, z, w] := by
  obtain ⟨hx, hy, hz, hw⟩ := h
  exact ⟨_, _, _, _, rfl⟩

theorem Hex4.lt (h : Hex4 n e) : n < 0x10000 := by
  obtain ⟨⟨hx, -⟩, ⟨hy, -⟩, ⟨hz, -⟩, ⟨hw, -⟩⟩ := h
  omega

/-! ### Characters by their numbers -/

theorem toNat_ofNat (h : n.isValidChar) : (Char.ofNat n).toNat = n := by
  rw [Char.ofNat, dif_pos h]
  rfl

theorem isHighSurrogate_iff : isHighSurrogate n = true ↔ 0xD800 ≤ n ∧ n ≤ 0xDBFF := by
  simp [isHighSurrogate]

theorem isLowSurrogate_iff : isLowSurrogate n = true ↔ 0xDC00 ≤ n ∧ n ≤ 0xDFFF := by
  simp [isLowSurrogate]

theorem isLowSurrogate_of_isHighSurrogate (h : isHighSurrogate n = true) :
    isLowSurrogate n = false := by
  rw [isHighSurrogate_iff] at h
  rw [← Bool.not_eq_true, isLowSurrogate_iff]
  omega

/-- The number of a character is no surrogate. -/
theorem not_surrogate (c : Char) :
    isHighSurrogate c.toNat = false ∧ isLowSurrogate c.toNat = false := by
  have hvalid : c.toNat.isValidChar := c.valid
  rw [← Bool.not_eq_true, ← Bool.not_eq_true, isHighSurrogate_iff, isLowSurrogate_iff]
  unfold Nat.isValidChar at hvalid
  omega

theorem toNat_ofNat_of_not_surrogate (hn : n < 0x10000) (hhigh : isHighSurrogate n = false)
    (hlow : isLowSurrogate n = false) : (Char.ofNat n).toNat = n := by
  rw [← Bool.not_eq_true, isHighSurrogate_iff] at hhigh
  rw [← Bool.not_eq_true, isLowSurrogate_iff] at hlow
  refine toNat_ofNat ?_
  unfold Nat.isValidChar
  omega

/-- **Surrogates** have ten bits each of what the number of the character is more than 0x10000. -/
theorem ofSurrogates_eq_iff :
    isHighSurrogate high = true ∧ isLowSurrogate low = true ∧ ofSurrogates high low = c ↔
      0x10000 ≤ c.toNat ∧ high = 0xD800 + (c.toNat - 0x10000) / 0x400 ∧
        low = 0xDC00 + (c.toNat - 0x10000) % 0x400 := by
  rw [isHighSurrogate_iff, isLowSurrogate_iff]
  constructor
  · rintro ⟨hhigh, hlow, rfl⟩
    have hvalue : (ofSurrogates high low).toNat =
        (high - 0xD800) * 0x400 + (low - 0xDC00) + 0x10000 := by
      refine toNat_ofNat ?_
      unfold Nat.isValidChar
      omega
    rw [hvalue]
    omega
  · rintro ⟨hplane, hhigh, hlow⟩
    have hvalid : c.toNat.isValidChar := c.valid
    have hrange : c.toNat < 0x110000 := by
      unfold Nat.isValidChar at hvalid
      omega
    refine ⟨by omega, by omega, ?_⟩
    have hnumber : (high - 0xD800) * 0x400 + (low - 0xDC00) + 0x10000 = c.toNat := by omega
    rw [ofSurrogates, hnumber, Char.ofNat_toNat]

/-! ### Short escapes -/

theorem shortEscape?_eq_some_iff : shortEscape? letter = some c ↔ (letter, c) ∈ shortEscapes := by
  constructor
  · intro h
    unfold shortEscape? at h
    split at h
    all_goals cases h
    all_goals decide
  · have hall : ∀ p ∈ shortEscapes, shortEscape? p.1 = some p.2 := by decide
    exact hall (letter, c)

/-! ### What is written -/

/-- What is written for a character is a spelling of it. -/
theorem spells_escape (c : Char) : Spells c (escape c) := by
  unfold escape
  split_ifs with hquote hbackslash hb hf hn hr ht hcontrol
  · exact .short (by rw [hquote]; decide)
  · exact .short (by rw [hbackslash]; decide)
  · exact .short (by rw [hb]; decide)
  · exact .short (by rw [hf]; decide)
  · exact .short (by rw [hn]; decide)
  · exact .short (by rw [hr]; decide)
  · exact .short (by rw [ht]; decide)
  · have hzero : IsHexDigit 0 '0' := isHexDigit_hexDigit (by decide)
    have hdigits := Hex4.digits hzero hzero
      (isHexDigit_hexDigit (n := c.toNat / 16) (by omega))
      (isHexDigit_hexDigit (n := c.toNat % 16) (by omega))
    have hnumber : ((0 * 16 + 0) * 16 + c.toNat / 16) * 16 + c.toNat % 16 = c.toNat := by omega
    rw [hnumber] at hdigits
    exact .number (.basic hdigits)
  · exact .raw hquote hbackslash (Nat.le_of_not_lt hcontrol)

theorem spellsAll_escape (cs : List Char) : SpellsAll cs (cs.flatMap escape) := by
  induction cs with
  | nil => exact .nil
  | cons c cs ih => exact .cons (spells_escape c) ih

theorem spellsString_quote (s : String) : SpellsString s (quote s.toList) :=
  ⟨_, rfl, spellsAll_escape s.toList⟩

end ScimQuery.Json
