import ScimQuery.Proofs.Json.Spelling

/-!
# Json — strings are read from their spellings

The reader takes a string from just the spellings that it has, up to the closing quote, and leaves
what follows this quote as it is (`readQuoted_eq_ok_iff`).  Each part of the reader has its law in
both directions: it takes a spelling in front of any text (`Hex4.read`, `SpellsNumber.read`,
`Spells.readQuoted`), and what it took is one.  The law of the string follows its characters.
-/

namespace ScimQuery.Json

variable {n high low : Nat} {cs ds rest digits e : List Char} {c : Char}

/-! ### Spellings are read -/

/-- Four characters have four bytes at least. -/
theorem four_le_byteSize (x y z w : Char) : 4 ≤ byteSize [x, y, z, w] := by
  have hx := Char.utf8Size_pos x
  have hy := Char.utf8Size_pos y
  have hz := Char.utf8Size_pos z
  have hw := Char.utf8Size_pos w
  simp only [byteSize, List.foldl_cons, List.foldl_nil]
  omega

theorem Hex4.read (h : Hex4 n digits) (rest : List Char) :
    readHex4 (digits ++ rest) = .ok (n, rest) := by
  obtain ⟨x, y, z, w, rfl⟩ := h.exists_digits
  -- the size is that of the four digits alone
  have hsize : ¬ byteSize ((x :: y :: z :: w :: rest).take 4) < 4 :=
    Nat.not_lt_of_le (four_le_byteSize x y z w)
  change readHex4 (x :: y :: z :: w :: rest) = _
  rw [readHex4, if_neg hsize]
  simp only [hexValue4?_eq_some_iff.mpr h]

theorem Hex4.readLowSurrogate (h : Hex4 low digits) (hlow : isLowSurrogate low = true)
    (rest : List Char) :
    readLowSurrogate high ('\\' :: 'u' :: digits ++ rest) = .ok (ofSurrogates high low, rest) := by
  simp [Json.readLowSurrogate, h.read, hlow]

theorem SpellsNumber.read (h : SpellsNumber c e) (rest : List Char) :
    readUnicode (e ++ rest) = .ok (c, rest) := by
  cases h with
  | basic hdigits =>
      obtain ⟨hhigh, hlow⟩ := not_surrogate c
      simp [readUnicode, hdigits.read, hhigh, hlow]
  | surrogates hplane hhigh hlow =>
      obtain ⟨hishigh, hislow, hchar⟩ := ofSurrogates_eq_iff.mpr ⟨hplane, rfl, rfl⟩
      have hfirst : isLowSurrogate (0xD800 + (c.toNat - 0x10000) / 0x400) = false :=
        isLowSurrogate_of_isHighSurrogate hishigh
      rw [List.append_assoc, readUnicode, hhigh.read]
      simp only [hfirst, hishigh, if_true]
      rw [hlow.readLowSurrogate hislow, hchar]
      rfl

/-- Reading a string past the spelling of a character. -/
theorem Spells.readQuoted (h : Spells c e) (hread : readQuoted cs = .ok (ds, rest)) :
    readQuoted (e ++ cs) = .ok (c :: ds, rest) := by
  have hescaped {e : List Char} (hescape : readEscape (e ++ cs) = .ok (c, cs)) :
      Json.readQuoted ('\\' :: e ++ cs) = .ok (c :: ds, rest) := by
    rw [List.cons_append, Json.readQuoted, if_neg (by decide), if_pos rfl]
    split
    · rename_i he
      rw [hescape] at he
      cases he
    · rename_i he
      rw [hescape] at he
      cases he
      simp only [hread]
  cases h with
  | raw hquote hbackslash hcontrol =>
      rw [List.singleton_append, Json.readQuoted, if_neg hquote, if_neg hbackslash,
        if_neg (Nat.not_lt_of_le hcontrol)]
      simp only [hread]
  | short h =>
      exact hescaped (by simp [readEscape, shortEscape?_eq_some_iff.mpr h])
  | @number e h =>
      have hshort : shortEscape? 'u' = none := rfl
      exact hescaped (e := 'u' :: e) (by simp [readEscape, hshort, h.read])

/-- **A string is read from every spelling of it**, up to its closing quote. -/
theorem SpellsAll.readQuoted (h : SpellsAll cs e) (rest : List Char) :
    readQuoted (e ++ '"' :: rest) = .ok (cs, rest) := by
  induction h with
  | nil => rw [List.nil_append, Json.readQuoted, if_pos rfl]
  | cons h _ ih =>
      rw [List.append_assoc]
      exact h.readQuoted ih

/-! ### What was read is a spelling -/

theorem exists_hex4_of_readHex4 (h : readHex4 cs = .ok (n, rest)) :
    ∃ digits, cs = digits ++ rest ∧ Hex4 n digits := by
  unfold readHex4 at h
  split at h
  · cases h
  split at h
  · rename_i x y z w more _
    split at h
    · rename_i hvalue
      cases h
      exact ⟨[x, y, z, w], rfl, hexValue4?_eq_some_iff.mp hvalue⟩
    · cases h
  · cases h

theorem exists_hex4_of_readLowSurrogate (h : readLowSurrogate high cs = .ok (c, rest)) :
    ∃ digits low, cs = '\\' :: 'u' :: digits ++ rest ∧ Hex4 low digits ∧
      isLowSurrogate low = true ∧ ofSurrogates high low = c := by
  unfold readLowSurrogate at h
  split at h
  · cases h
  split at h
  · cases h
  rename_i hb
  split at h
  · cases h
  split at h
  · cases h
  rename_i hu
  split at h
  · cases h
  rename_i hhex
  obtain ⟨digits, rfl, hdigits⟩ := exists_hex4_of_readHex4 hhex
  split at h
  · rename_i hlow
    obtain ⟨hc, rfl⟩ := Prod.mk.inj (Except.ok.inj h)
    rw [Decidable.not_not.mp hb, Decidable.not_not.mp hu]
    exact ⟨digits, _, rfl, hdigits, hlow, hc⟩
  · cases h

theorem exists_spellsNumber_of_readUnicode (h : readUnicode cs = .ok (c, rest)) :
    ∃ e, cs = e ++ rest ∧ SpellsNumber c e := by
  unfold readUnicode at h
  split at h
  · cases h
  rename_i n more hhex
  obtain ⟨digits, rfl, hdigits⟩ := exists_hex4_of_readHex4 hhex
  split at h
  · cases h
  rename_i hlow
  split at h
  · rename_i hhigh
    obtain ⟨digits', low, rfl, hdigits', hlow', hchar⟩ := exists_hex4_of_readLowSurrogate h
    obtain ⟨hplane, hn, hl⟩ := ofSurrogates_eq_iff.mp ⟨hhigh, hlow', hchar⟩
    exact ⟨digits ++ '\\' :: 'u' :: digits', by simp,
      .surrogates hplane (hn ▸ hdigits) (hl ▸ hdigits')⟩
  · rename_i hhigh
    cases h
    refine ⟨digits, rfl, .basic ?_⟩
    rwa [toNat_ofNat_of_not_surrogate hdigits.lt (by simpa using hhigh) (by simpa using hlow)]

theorem exists_spells_of_readEscape (h : readEscape cs = .ok (c, rest)) :
    ∃ e, cs = e ++ rest ∧ Spells c ('\\' :: e) := by
  unfold readEscape at h
  split at h
  · cases h
  rename_i d more
  split at h
  · rename_i hshort
    cases h
    exact ⟨[d], rfl, .short (shortEscape?_eq_some_iff.mp hshort)⟩
  · split at h
    · rename_i hu
      obtain ⟨e, rfl, he⟩ := exists_spellsNumber_of_readUnicode h
      rw [hu]
      exact ⟨'u' :: e, rfl, .number he⟩
    · cases h

theorem exists_spellsAll_of_readQuoted (h : readQuoted cs = .ok (ds, rest)) :
    ∃ body, cs = body ++ '"' :: rest ∧ SpellsAll ds body := by
  -- the closing quote, an escape and a character by itself are left, the others are refused
  fun_induction readQuoted cs generalizing ds rest with
  | case1 => cases h
  | case2 more =>
      cases h
      exact ⟨[], rfl, .nil⟩
  | case3 => cases h
  | case4 => cases h
  | case5 cs d more hescape ds' after hmore _ ih =>
      cases h
      obtain ⟨e, rfl, he⟩ := exists_spells_of_readEscape hescape
      obtain ⟨body, rfl, hbody⟩ := ih hmore
      exact ⟨'\\' :: e ++ body, by simp, .cons he hbody⟩
  | case6 => cases h
  | case7 => cases h
  | case8 c more hquote hbackslash hcontrol ds' after hmore ih =>
      cases h
      obtain ⟨body, rfl, hbody⟩ := ih hmore
      exact ⟨[c] ++ body, rfl, .cons (.raw hquote hbackslash (Nat.le_of_not_lt hcontrol)) hbody⟩

/-! ### Strings -/

/-- **The reader takes a string from just the spellings that it has**, up to the closing quote. -/
theorem readQuoted_eq_ok_iff :
    readQuoted cs = .ok (ds, rest) ↔ ∃ body, cs = body ++ '"' :: rest ∧ SpellsAll ds body := by
  constructor
  · exact exists_spellsAll_of_readQuoted
  · rintro ⟨body, rfl, hbody⟩
    exact hbody.readQuoted rest

end ScimQuery.Json
