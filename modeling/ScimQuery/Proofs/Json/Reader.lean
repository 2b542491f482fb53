import ScimQuery.Proofs.Json.Quoted
import ScimQuery.Proofs.Number.Text
import ScimQuery.Value

/-!
# Json — values by their first character

The first character of a JSON value tells its kind: a quote starts a string and nothing else
(`readValue_quoted`), a bracket a list, a brace an object, a digit or a minus sign a number
(`readValue_number`), and each of the words has a letter of its own (`readValue_word`).

A value that is neither a list nor an object is a word, a string or a number, with its text in
front of what is left (`readValue_scalar`).
-/

namespace ScimQuery.Json

theorem readValue_eq_ok_iff {cs rest : List Char} {v : Json} :
    readValue cs = .ok (v, rest) ↔ ∃ r, readAt maxNesting cs = .ok r ∧ r.1 = v ∧ r.2.1 = rest := by
  unfold readValue
  cases readAt maxNesting cs with
  | error fault => simp
  | ok r => simp

theorem readValue_length {cs rest : List Char} {v : Json} (h : readValue cs = .ok (v, rest)) :
    rest.length < cs.length := by
  obtain ⟨r, -, -, rfl⟩ := readValue_eq_ok_iff.mp h
  exact r.2.2

/-! ### Strings, lists and objects -/

/-- A value that starts with a quote is a string. -/
theorem readValue_quoted {cs rest : List Char} {v : Json} :
    readValue ('"' :: cs) = .ok (v, rest) ↔
      ∃ ds, readQuoted cs = .ok (ds, rest) ∧ v = .string (String.ofList ds) := by
  rw [readValue_eq_ok_iff, readAt.eq_def]
  dsimp only
  rw [if_neg (by decide), if_neg (by decide), if_neg (by decide), if_pos rfl]
  split
  · rename_i he
    simp [he]
  · rename_i ds more he
    constructor
    · rintro ⟨r, hr, rfl, rfl⟩
      cases hr
      exact ⟨ds, he, rfl⟩
    · rintro ⟨ds', he', rfl⟩
      rw [he] at he'
      cases he'
      exact ⟨_, rfl, rfl, rfl⟩

/-- A value that starts with a bracket is a list. -/
theorem readValue_list {cs rest : List Char} {v : Json}
    (h : readValue ('[' :: cs) = .ok (v, rest)) :
    ∃ vs, v = .array vs := by
  obtain ⟨r, hread, rfl, -⟩ := readValue_eq_ok_iff.mp h
  rw [readAt.eq_def] at hread
  dsimp only at hread
  rw [if_neg (by decide), if_neg (by decide), if_neg (by decide), if_neg (by decide),
    if_neg (by decide), if_pos rfl] at hread
  split at hread
  · cases hread
  · split at hread
    · cases hread
    · cases hread
      exact ⟨_, rfl⟩

/-- A value that starts with a brace is an object. -/
theorem readValue_object {cs rest : List Char} {v : Json}
    (h : readValue ('\x7b' :: cs) = .ok (v, rest)) : ∃ ms, v = ofMembers ms := by
  obtain ⟨r, hread, rfl, -⟩ := readValue_eq_ok_iff.mp h
  rw [readAt.eq_def] at hread
  dsimp only at hread
  rw [if_neg (by decide), if_neg (by decide), if_neg (by decide), if_neg (by decide),
    if_neg (by decide), if_neg (by decide), if_pos rfl] at hread
  split at hread
  · cases hread
  · split at hread
    · cases hread
    · cases hread
      exact ⟨_, rfl⟩

/-! ### Words and numbers -/

/-- The words that are values. -/
def words : List (List Char × Value) :=
  [("null".toList, .null), ("true".toList, .bool true), ("false".toList, .bool false)]

theorem readWord_eq_ok_iff {word cs rest : List Char} :
    readWord word cs = .ok rest ↔ cs = word ++ rest := by
  fun_induction readWord word cs with
  | case1 cs => simp
  | case2 d word => simp
  | case3 c word cs ih => simpa using ih
  | case4 d word c cs hne => simp [hne]

/-- A value that starts with the first letter of a word is this word. -/
theorem readValue_letter {c : Char} {word : String} {cs rest : List Char} {u v : Json}
    (hread : ∀ s, readAt maxNesting (c :: s) = (readNamed v word s).map (readAt.after s)) :
    readValue (c :: cs) = .ok (u, rest) ↔ u = v ∧ cs = word.toList ++ rest := by
  rw [readValue_eq_ok_iff, hread, ← readWord_eq_ok_iff]
  unfold readNamed
  split
  · rename_i he
    simp [he, Except.map]
  · rename_i he
    constructor
    · rintro ⟨r, hr, rfl, rfl⟩
      cases hr
      exact ⟨rfl, he⟩
    · rintro ⟨rfl, he'⟩
      rw [he] at he'
      cases he'
      exact ⟨_, rfl, rfl, rfl⟩

theorem readValue_n {cs rest : List Char} {v : Json} :
    readValue ('n' :: cs) = .ok (v, rest) ↔ v = .null ∧ cs = "ull".toList ++ rest :=
  readValue_letter fun s => by rw [readAt.eq_def]; rfl

theorem readValue_t {cs rest : List Char} {v : Json} :
    readValue ('t' :: cs) = .ok (v, rest) ↔ v = .bool true ∧ cs = "rue".toList ++ rest :=
  readValue_letter fun s => by rw [readAt.eq_def]; rfl

theorem readValue_f {cs rest : List Char} {v : Json} :
    readValue ('f' :: cs) = .ok (v, rest) ↔ v = .bool false ∧ cs = "alse".toList ++ rest :=
  readValue_letter fun s => by rw [readAt.eq_def]; rfl

/-- A word is read in front of any text. -/
theorem readValue_word {word : List Char} {v : Value} (h : (word, v) ∈ words) (rest : List Char) :
    readValue (word ++ rest) = .ok (v.toJson, rest) := by
  simp only [words, List.mem_cons, Prod.mk.injEq, List.not_mem_nil, or_false] at h
  rcases h with ⟨rfl, rfl⟩ | ⟨rfl, rfl⟩ | ⟨rfl, rfl⟩
  · exact readValue_n.mpr ⟨rfl, rfl⟩
  · exact readValue_t.mpr ⟨rfl, rfl⟩
  · exact readValue_f.mpr ⟨rfl, rfl⟩

/-- A value that starts with a digit or a minus sign is a number. -/
theorem readValue_number {c : Char} {cs rest : List Char} {v : Json}
    (hc : c = '-' ∨ isDigit c = true) :
    readValue (c :: cs) = .ok (v, rest) ↔
      ∃ m, readNumeral (c :: cs) = .ok (m, rest) ∧ v = .number m := by
  rw [readValue_eq_ok_iff, readAt.eq_def]
  dsimp only
  rw [if_neg (ne_of_mem_numeral hc rfl), if_neg (ne_of_mem_numeral hc rfl),
    if_neg (ne_of_mem_numeral hc rfl), if_neg (ne_of_mem_numeral hc rfl), if_pos hc]
  split
  · rename_i he
    simp [he]
  · rename_i m more he
    constructor
    · rintro ⟨r, hr, rfl, rfl⟩
      cases hr
      exact ⟨m, he, rfl⟩
    · rintro ⟨m', he', rfl⟩
      rw [he] at he'
      cases he'
      exact ⟨_, rfl, rfl, rfl⟩

/-! ### Values that are neither lists nor objects -/

/-- A word, a string or a number, in front of what is left. -/
inductive Scalar (rest : List Char) : List Char → Value → Prop where
  | word {w : List Char} {v : Value} (h : (w, v) ∈ words) : Scalar rest (w ++ rest) v
  | string {ds body : List Char} (h : SpellsAll ds body) :
      Scalar rest ('"' :: (body ++ '"' :: rest)) (.string (String.ofList ds))
  | number {c : Char} {cs : List Char} {m : Number} (hc : c = '-' ∨ isDigit c = true)
      (h : readNumeral (c :: cs) = .ok (m, rest)) : Scalar rest (c :: cs) (.number m)

theorem Scalar.readValue {cs rest : List Char} {v : Value} (h : Scalar rest cs v) :
    readValue cs = .ok (v.toJson, rest) := by
  cases h with
  | word h => exact readValue_word h rest
  | string h => exact readValue_quoted.mpr ⟨_, h.readQuoted rest, rfl⟩
  | number hc h => exact (readValue_number hc).mpr ⟨_, h, rfl⟩

theorem scalar_of_readValue {cs rest : List Char} {v : Value}
    (h : readValue cs = .ok (v.toJson, rest)) : Scalar rest cs v := by
  have hvalue := Value.ofJson?_toJson v
  generalize v.toJson = j at h hvalue
  cases cs with
  | nil => cases h
  | cons c cs =>
      -- the first character tells the kind of the value
      by_cases hn : c = 'n'
      · subst hn
        obtain ⟨rfl, rfl⟩ := readValue_n.mp h
        cases hvalue
        exact .word (w := "null".toList) (by simp [words])
      by_cases ht : c = 't'
      · subst ht
        obtain ⟨rfl, rfl⟩ := readValue_t.mp h
        cases hvalue
        exact .word (w := "true".toList) (by simp [words])
      by_cases hf : c = 'f'
      · subst hf
        obtain ⟨rfl, rfl⟩ := readValue_f.mp h
        cases hvalue
        exact .word (w := "false".toList) (by simp [words])
      by_cases hquote : c = '"'
      · subst hquote
        obtain ⟨ds, hquoted, rfl⟩ := readValue_quoted.mp h
        obtain ⟨body, rfl, hbody⟩ := readQuoted_eq_ok_iff.mp hquoted
        cases hvalue
        exact .string hbody
      by_cases hc : c = '-' ∨ isDigit c = true
      · obtain ⟨m, hnumeral, rfl⟩ := (readValue_number hc).mp h
        cases hvalue
        exact .number hc hnumeral
      by_cases hlist : c = '['
      · subst hlist
        obtain ⟨vs, rfl⟩ := readValue_list h
        cases hvalue
      by_cases hobject : c = '\x7b'
      · subst hobject
        obtain ⟨ms, rfl⟩ := readValue_object h
        cases hvalue
      -- nothing else starts a value
      rw [readValue, readAt.eq_def] at h
      dsimp only at h
      rw [if_neg hn, if_neg ht, if_neg hf, if_neg hquote, if_neg hc, if_neg hlist,
        if_neg hobject] at h
      cases h

/-- **What is read to be neither a list nor an object** is a word, a string or a number. -/
theorem readValue_scalar {cs rest : List Char} {v : Value} :
    readValue cs = .ok (v.toJson, rest) ↔ Scalar rest cs v :=
  ⟨scalar_of_readValue, Scalar.readValue⟩

/-- The text in front of what is left. -/
theorem Scalar.suffix {cs rest : List Char} {v : Value} (h : Scalar rest cs v) : rest <:+ cs := by
  cases h with
  | word _ => exact List.suffix_append _ _
  | string _ => exact (List.suffix_cons _ _).trans ((List.suffix_append _ _).trans
      (List.suffix_cons _ _))
  | number _ h =>
      obtain ⟨d, digits, hcons, -, hrest⟩ := readNumeral_leaves h
      cases hcons
      exact hrest.suffix.trans (List.suffix_cons _ _)

end ScimQuery.Json
