import ScimQuery.Path.Reader

/-!
# Path — the schema in front of a name

The first name of a path may carry a schema.  `splitSchema` cuts at the last colon, so that the
schema keeps every other colon and the name proper has none.

* `splitSchema_append`: a schema, a colon and a name without colon are split into the two.
* `splitSchema_eq_some`: what a schema and a name that were split say about each other.
-/

namespace ScimQuery.Path

open Text (isKeyword sameLetters lower)

/-! ### The last colon -/

theorem splitLastColon?_eq_none_iff {cs : List Char} :
    splitLastColon? cs = none ↔ ':' ∉ cs := by
  induction cs with
  | nil => simp [splitLastColon?]
  | cons c cs ih =>
      rw [List.mem_cons, not_or, ← ih]
      cases hcs : splitLastColon? cs with
      | some lr => simp [splitLastColon?, hcs]
      | none =>
          by_cases hc : c = ':' <;> simp [splitLastColon?, hcs, hc, eq_comm]

theorem splitLastColon?_append (left : List Char) {right : List Char} (h : ':' ∉ right) :
    splitLastColon? (left ++ ':' :: right) = some (left, right) := by
  induction left with
  | nil => simp [splitLastColon?, splitLastColon?_eq_none_iff.mpr h]
  | cons c left ih => simp [splitLastColon?, ih]

/-- A split at the last colon leaves no colon on the right. -/
theorem splitLastColon?_eq_some {cs left right : List Char}
    (h : splitLastColon? cs = some (left, right)) : cs = left ++ ':' :: right ∧ ':' ∉ right := by
  induction cs generalizing left with
  | nil => cases h
  | cons c cs ih =>
      unfold splitLastColon? at h
      split at h
      · rename_i l r hcs
        cases h
        obtain ⟨rfl, hr⟩ := ih hcs
        exact ⟨rfl, hr⟩
      · rename_i hcs
        split at h
        · rename_i hc
          cases h
          exact ⟨hc ▸ rfl, splitLastColon?_eq_none_iff.mp hcs⟩
        · cases h

/-! ### The start of a schema -/

theorem eq_colon_of_toLower {c : Char} (h : c.toLower = ':') : c = ':' := by
  unfold Char.toLower at h
  split at h
  · rename_i hc
    have hval : c.val + 32 = ':'.val := congrArg Char.val h
    have hge := UInt32.le_iff_toNat_le.mp hc.1
    have hle := UInt32.le_iff_toNat_le.mp hc.2
    have heq := congrArg UInt32.toNat hval
    rw [UInt32.toNat_add] at heq
    simp at hge hle heq
    omega
  · exact h

/-- A name starts with `urn:` when it is three letters that spell `urn` in some case, a colon,
and the rest. -/
theorem hasSchema_iff {name : List Char} :
    hasSchema name = true ↔
      ∃ letters rest, name = letters ++ ':' :: rest ∧ sameLetters letters "urn".toList = true := by
  constructor
  · intro h
    match name, h with
    | a :: b :: c :: d :: rest, h =>
        have h : [a.toLower, b.toLower, c.toLower, d.toLower] = ['u', 'r', 'n', ':'] := by
          simpa [hasSchema, isKeyword, sameLetters, lower] using h
        simp only [List.cons.injEq, and_true] at h
        obtain ⟨ha, hb, hc, hd⟩ := h
        obtain rfl := eq_colon_of_toLower hd
        exact ⟨[a, b, c], rest, rfl, by simp [sameLetters, lower, ha, hb, hc]⟩
    | [], h | [_], h | [_, _], h | [_, _, _], h =>
        simp [hasSchema, isKeyword, sameLetters, lower] at h
  · rintro ⟨letters, rest, rfl, h⟩
    have hlen : letters.length = 3 := by
      simpa [sameLetters, lower] using congrArg List.length (eq_of_beq h)
    have htake : (letters ++ ':' :: rest).take 4 = letters ++ [':'] := by
      rw [List.take_append, hlen, List.take_of_length_le (by omega)]
      rfl
    have := eq_of_beq h
    simp only [hasSchema, htake, isKeyword, sameLetters, lower, List.map_append] at this ⊢
    rw [this]
    rfl

/-- A text up to one of its colons starts with `urn:` if the text does. -/
theorem hasSchema_append_colon {left right : List Char} (hright : ':' ∉ right) :
    hasSchema (left ++ ':' :: right) = hasSchema (left ++ [':']) := by
  rw [Bool.eq_iff_iff, hasSchema_iff, hasSchema_iff]
  constructor
  · rintro ⟨letters, rest, h, hurn⟩
    rcases List.append_eq_append_iff.mp h with ⟨mid, rfl, hmid⟩ | ⟨mid, rfl, hmid⟩
    · cases mid with
      | nil => exact ⟨left, [], by simp, by simpa using hurn⟩
      | cons d mid =>
          -- the colon after the letters would lie on the right
          obtain ⟨rfl, rfl⟩ := List.cons.inj hmid
          simp at hright
    · cases mid with
      | nil => exact ⟨letters, [], by simp, hurn⟩
      | cons d mid =>
          obtain ⟨rfl, -⟩ := List.cons.inj hmid
          exact ⟨letters, mid ++ [':'], by simp, hurn⟩
  · rintro ⟨letters, rest, h, hurn⟩
    have := congrArg (· ++ right) h
    exact ⟨letters, rest ++ right, by simpa using this, hurn⟩

/-! ### Splitting -/

theorem splitSchema_of_not_hasSchema {name : List Char} (h : hasSchema name = false) :
    splitSchema name = (none, name) := by
  simp [splitSchema, h]

/-- A schema and a name without colon are split where they were joined. -/
theorem splitSchema_append {urn name : List Char} (hurn : hasSchema (urn ++ [':']) = true)
    (hname : ':' ∉ name) : splitSchema (urn ++ ':' :: name) = (some (String.ofList urn), name) := by
  simp only [splitSchema, hasSchema_append_colon hname, hurn, if_true,
    splitLastColon?_append urn hname]

/-- What was split is a schema, a colon and a name without colon. -/
theorem splitSchema_eq_some {word name : List Char} {urn : String}
    (h : splitSchema word = (some urn, name)) :
    word = urn.toList ++ ':' :: name ∧ hasSchema (urn.toList ++ [':']) = true ∧ ':' ∉ name := by
  unfold splitSchema at h
  split at h
  · rename_i hword
    split at h
    · rename_i left right hsplit
      cases h
      obtain ⟨rfl, hname⟩ := splitLastColon?_eq_some hsplit
      rw [hasSchema_append_colon hname] at hword
      rw [String.toList_ofList]
      exact ⟨rfl, hword, hname⟩
    · cases h
  · cases h

/-- What was not split starts with no schema. -/
theorem splitSchema_eq_none {word name : List Char} (h : splitSchema word = (none, name)) :
    name = word ∧ hasSchema word = false := by
  unfold splitSchema at h
  split at h
  · rename_i hword
    split at h
    · cases h
    · rename_i hsplit
      obtain ⟨letters, rest, rfl, -⟩ := hasSchema_iff.mp hword
      exact absurd (splitLastColon?_eq_none_iff.mp hsplit) (by simp)
  · rename_i hword
    cases h
    exact ⟨rfl, by simpa using hword⟩

end ScimQuery.Path
