import ScimQuery.Proofs.Filter.Refusal

/-!
# Filter — refused comparison values

A comparison value is refused at the place behind its operator and the one space that belongs to
the operator (`Phrase.read_invalidValue`).  The value itself starts behind the JSON spaces that
stand there, if there are any: this is where the text has a value (`ValueAt`).  So the place of the
error is that of the value exactly when no further space stands in front of it
(`parseFilter_invalidValue`).
-/

namespace ScimQuery

open Text (Cursor isWordChar isKeyword)

variable {region : Region} {c : Cursor} {p : Nat} {reason : String}

/-- At the place there is a comparison value: a character that is no JSON space, with nothing but
JSON spaces between it and the operator, which is a word of its own. -/
def ValueAt (text : List Char) (p : Nat) : Prop :=
  ∃ q op operator spaces d rest,
    Cursor.PlaceOf text ⟨q, (' ' :: op) ++ (spaces ++ d :: rest)⟩ ∧
    p = q + (' ' :: op).length + spaces.length ∧
    Operator.ofKeyword? op = some operator ∧
    (∀ e ∈ (spaces ++ d :: rest).head?, isWordChar e = false) ∧
    (∀ e ∈ spaces, Json.isSpace e = true) ∧ Json.isSpace d = false

/-- No value starts with a JSON space. -/
theorem ValueAt.exists_start {text : List Char} (h : ValueAt text p) :
    ∃ d, text[p]? = some d ∧ Json.isSpace d = false := by
  obtain ⟨q, op, operator, spaces, d, rest, hplace, rfl, -, -, -, hd⟩ := h
  exact ⟨d, hplace.append.append.getElem?_eq, hd⟩

/-! ### The phrase of a refused value -/

/-- A token is refused for a character that no token may hold. -/
theorem Token.exists_unexpected {e : Error} (h : Token.read region c = .error e) :
    ∃ d position tokenStart, e = .unexpectedCharacter d position tokenStart := by
  unfold Token.read at h
  dsimp only at h
  split at h
  · cases h
  · split at h
    · cases h
    split at h
    · cases h
    split at h
    · split at h <;> cases h
    · cases h
      exact ⟨_, _, _, rfl⟩

namespace Phrase

/-- The value behind an operator is refused: `p` is the place behind the operator and its space,
and scanning from there finds the fault. -/
def RefusedValue (c : Cursor) (p : Nat) (reason : String) : Prop :=
  ∃ front op operator s after fault, c.rest = (front ++ ' ' :: op) ++ s ∧
    Operator.ofKeyword? op = some operator ∧ (∀ d ∈ s.head?, isWordChar d = false) ∧
    Cursor.pastSpace ⟨c.position + (front ++ ' ' :: op).length, s⟩ = ⟨p, after⟩ ∧
    Literal.scan after = .error fault ∧ reason = fault.message

/-- Where an attribute and an operator are read and the scan behind them finds a fault, the value is
refused. -/
theorem refusedValue_of_words {w op : List Char} {k place : Nat} {next after : Cursor}
    {operator : Operator} {fault : LiteralFault}
    (hattribute : Token.read region c = .ok (some ⟨.word w, k, next⟩))
    (hop : Token.read region next = .ok (some ⟨.word op, place, after⟩))
    (hoperator : Operator.ofKeyword? op = some operator)
    (hscan : Literal.scan after.rest = .error fault) :
    RefusedValue c after.position fault.message := by
  obtain ⟨n, s, hrest, hends, rfl⟩ := Token.exists_word hattribute
  rw [Token.read_pastSpace] at hop
  have hspelled := Token.read_spelled hop
  obtain ⟨m, s, rfl, hafter, rfl⟩ := Token.exists_word hop
  -- what ends the attribute is a space, since the operator is a word of its own
  obtain ⟨m, rfl⟩ := hends.exists_succ hspelled
  let front := List.replicate n ' ' ++ w ++ List.replicate m ' '
  have hfront : List.replicate n ' ' ++ w ++ (List.replicate (m + 1) ' ' ++ op) =
      front ++ ' ' :: op := by
    simp [front, List.replicate_succ']
  have hlength : c.position + (List.replicate n ' ' ++ w).length +
      (List.replicate (m + 1) ' ' ++ op).length =
        c.position + (front ++ ' ' :: op).length := by
    rw [← hfront]
    simp only [List.length_append, Nat.add_assoc]
  rw [hlength] at hscan ⊢
  refine ⟨front, op, operator, s, _, fault, ?_, hoperator, hafter.isWordChar, rfl, hscan, rfl⟩
  rw [hrest, ← hfront]
  simp only [List.append_assoc]

theorem readCondition_invalidValue {w : List Char} {k : Nat} {next : Cursor}
    (htoken : Token.read region c = .ok (some ⟨.word w, k, next⟩))
    (h : readCondition region w k next = .error (.invalidValue p reason)) :
    RefusedValue c p reason := by
  unfold readCondition at h
  split at h
  · rename_i hpath
    obtain ⟨reason, rfl⟩ := readPath_eq_error hpath
    cases h
  split at h
  · rename_i herror
    obtain ⟨d, position, tokenStart, rfl⟩ := Token.exists_unexpected herror
    cases h
  · cases h
  · rename_i op place after hop
    split at h
    · cases h
    split at h
    · cases h
    rename_i operator hoperator
    split at h
    · rename_i hvalue
      cases h
      unfold readValue at hvalue
      split at hvalue
      · rename_i fault hscan
        cases hvalue
        exact refusedValue_of_words htoken hop hoperator hscan
      · cases hvalue
      · cases hvalue
    · cases h
  · cases h

theorem readOperand_invalidValue {t : Token} {k : Nat} {next : Cursor}
    (htoken : Token.read region c = .ok (some ⟨t, k, next⟩))
    (h : readOperand region t k next = .error (.invalidValue p reason)) :
    RefusedValue c p reason := by
  unfold readOperand at h
  split at h
  · cases h
  · split at h
    · unfold readNegated at h
      split at h
      · rename_i herror
        obtain ⟨d, position, tokenStart, rfl⟩ := Token.exists_unexpected herror
        cases h
      all_goals cases h
    split at h
    · rename_i hcondition
      cases h
      exact readCondition_invalidValue htoken hcondition
    · cases h
  · split at h
    · cases h
    split at h
    · rename_i hpath
      obtain ⟨reason, rfl⟩ := readPath_eq_error hpath
      cases h
    · cases h
  · cases h
  · cases h

/-- **A refused value is refused behind its operator.** -/
theorem read_invalidValue {due : Bool} (h : read region due c = .error (.invalidValue p reason)) :
    RefusedValue c p reason := by
  unfold read at h
  split at h
  · rename_i herror
    obtain ⟨d, position, tokenStart, rfl⟩ := Token.exists_unexpected herror
    cases h
  · cases h
  rename_i htoken
  split at h
  · split at h
    · rename_i hoperand
      cases h
      exact readOperand_invalidValue htoken hoperand
    · cases h
  · split at h
    · rename_i hphrase
      cases ofToken_eq_error hphrase
      cases h
    · cases h

end Phrase

/-! ### Whole texts -/

/-- A value behind an operator and its space: further spaces may stand in front of it. -/
theorem Phrase.RefusedValue.exists_value {text : List Char} (h : RefusedValue c p reason)
    (hc : c.PlaceOf text) (tail : List Char) :
    ∃ spaces d rest fault, Cursor.PlaceOf text ⟨p, spaces ++ d :: rest⟩ ∧
      (∀ e ∈ spaces, Json.isSpace e = true) ∧ ValueAt (text ++ tail) (p + spaces.length) ∧
      Literal.scan (spaces ++ d :: rest) = .error fault ∧ reason = fault.message := by
  obtain ⟨front, op, operator, s, after, fault, hrest, hoperator, hs, hpast, hscan, rfl⟩ := h
  obtain ⟨spaces, d, rest, rfl, hspaces, hd⟩ :=
    Literal.exists_of_scan (s := after) (by simp [hscan])
  -- the space that belongs to the operator, if there is one
  obtain ⟨gap, hgap, hgapped, hp⟩ : ∃ gap, (∀ e ∈ gap, Json.isSpace e = true) ∧
      s = gap ++ (spaces ++ d :: rest) ∧
        p = c.position + (front ++ ' ' :: op).length + gap.length := by
    by_cases hspace : ' ' ∈ s.head?
    · obtain ⟨s, rfl⟩ := List.head?_eq_some_iff.mp hspace
      cases hpast
      exact ⟨[' '], by simp [Json.isSpace], rfl, rfl⟩
    · rw [Cursor.pastSpace_eq_self hspace] at hpast
      cases hpast
      exact ⟨[], by simp, rfl, rfl⟩
  have hop : Cursor.PlaceOf text ⟨c.position + front.length, (' ' :: op) ++ s⟩ := by
    refine Cursor.PlaceOf.append ?_
    rwa [← List.append_assoc, ← hrest]
  have hlength : p = c.position + front.length + (' ' :: op).length + gap.length := by
    rw [hp, List.length_append, ← Nat.add_assoc]
  subst hgapped
  have hplace : Cursor.PlaceOf text ⟨p, spaces ++ d :: rest⟩ := hlength ▸ hop.append.append
  refine ⟨spaces, d, rest, fault, hplace, hspaces, ?_, hscan, rfl⟩
  refine ⟨c.position + front.length, op, operator, gap ++ spaces, d, rest ++ tail, ?_, ?_,
    hoperator, ?_, ?_, hd⟩
  · have hinside : c.position + front.length ≤ text.length := Nat.le_of_lt (hop.lt_length (by simp))
    show (text ++ tail).drop _ = _
    rw [List.drop_append_of_le_length hinside, hop]
    simp
  · rw [hlength, List.length_append, ← Nat.add_assoc]
  · intro e he
    refine hs e ?_
    cases gap <;> cases spaces <;> exact he
  · intro e he
    exact (List.mem_append.mp he).elim (hgap e) (hspaces e)

/-- **Where a comparison value is refused.**  The value starts behind the JSON spaces at the place
of the error, and the error tells its fault; so a value starts at the place itself exactly when
there is no JSON space. -/
theorem parseFilter_invalidValue (limits : Limits) (text : String) (p : Nat) (reason : String)
    (h : parseFilter limits text = .error (.invalidValue p reason)) :
    ∃ spaces d rest fault,
      (Text.trimEnd text.toList).drop p = spaces ++ d :: rest ∧
      (∀ e ∈ spaces, Json.isSpace e = true) ∧
      ValueAt text.toList (p + spaces.length) ∧
      Literal.scan (spaces ++ d :: rest) = .error fault ∧ reason = fault.message ∧
      (ValueAt text.toList p ↔ spaces = []) := by
  have hrefused : ∃ region due c, c.PlaceOf (Text.trimEnd text.toList) ∧
      Phrase.read region due c = .error (.invalidValue p reason) := by
    rcases parseFilter_refuses limits text _ h with ⟨length, max, h⟩ | h | h
    · cases h
    · cases h
    · exact h
  obtain ⟨region, due, c, hc, hphrase⟩ := hrefused
  obtain ⟨tail, htext, -⟩ := Text.exists_blank_tail text.toList
  obtain ⟨spaces, d, rest, fault, hplace, hspaces, hvalue, hscan, hreason⟩ :=
    (Phrase.read_invalidValue hphrase).exists_value hc tail
  rw [← htext] at hvalue
  refine ⟨spaces, d, rest, fault, hplace, hspaces, hvalue, hscan, hreason, ?_⟩
  constructor
  case mp =>
    intro hat
    obtain ⟨e, he, hstart⟩ := hat.exists_start
    cases spaces with
    | nil => rfl
    | cons e' spaces =>
        have hinside : p < (Text.trimEnd text.toList).length := hplace.lt_length (by simp)
        rw [htext, List.getElem?_append_left hinside, hplace.getElem?_eq] at he
        cases he
        rw [hspaces e (by simp)] at hstart
        cases hstart
  case mpr =>
    rintro rfl
    exact hvalue

/-- Two spaces between an operator and a word that is no value. -/
theorem parseFilter_invalidValue_spaced :
    parseFilter {} "a eq  x" = .error (.invalidValue 5 "expected value at line 1 column 1") ∧
      ∃ spaces d rest, (Text.trimEnd "a eq  x".toList).drop 5 = spaces ++ d :: rest ∧
        ValueAt "a eq  x".toList (5 + spaces.length) := by
  have h : parseFilter {} "a eq  x" =
      .error (.invalidValue 5 "expected value at line 1 column 1") := by
    rw [← Text.refusal?_eq_some_iff]
    decide +kernel
  obtain ⟨spaces, d, rest, fault, hplace, -, hvalue, -⟩ := parseFilter_invalidValue _ _ _ _ h
  exact ⟨h, spaces, d, rest, hplace, hvalue⟩

/-- The place of the error need not be that of the value: here it is that of a space in front. -/
theorem parseFilter_invalidValue_early :
    parseFilter {} "a eq  x" = .error (.invalidValue 5 "expected value at line 1 column 1") ∧
      ¬ ValueAt "a eq  x".toList 5 := by
  have h : parseFilter {} "a eq  x" =
      .error (.invalidValue 5 "expected value at line 1 column 1") := by
    rw [← Text.refusal?_eq_some_iff]
    decide +kernel
  refine ⟨h, fun hvalue => ?_⟩
  obtain ⟨d, hd, hspace⟩ := hvalue.exists_start
  cases hd
  cases hspace

end ScimQuery
