import ScimQuery.Filter.Phrase

/-!
# Filter — what a phrase is read from

A phrase is read from one token, or from two, and from a comparison value at most.  Which tokens
these are is told by two relations, one case for each kind of phrase, so that what holds of every
phrase that is read is proved by cases on them.

* `Phrase.ReadsCondition`, `Phrase.readCondition_eq_ok_iff`: the conditions on an attribute.
* `Phrase.Reads`, `Phrase.read_eq_some_iff`: the phrases.
-/

namespace ScimQuery

open Text (Cursor isKeyword)

theorem Text.isKeyword_and_or {w : List Char} (h : isKeyword w Junction.or.keyword = true) :
    isKeyword w Junction.and.keyword = false := by
  have hor : Text.lower w = Text.lower Junction.or.keyword.toList := eq_of_beq h
  unfold isKeyword Text.sameLetters
  rw [hor]
  decide

namespace Phrase

variable {region : Region} {word : List Char} {position k : Nat} {due : Bool}
  {c next after : Cursor} {f : Filter} {phrase : Phrase}

/-- What a condition is read from, behind the word that names its attribute. -/
inductive ReadsCondition (region : Region) (word : List Char) (position : Nat) (c : Cursor) :
    Filter → Cursor → Prop where
  | present {path : Path} {w : List Char} {k : Nat} {next : Cursor} :
      readPath word position = .ok path → Token.read region c = .ok (some ⟨.word w, k, next⟩) →
        isKeyword w Operator.presentKeyword = true →
          ReadsCondition region word position c (.present path) next
  | compare {path : Path} {w : List Char} {k : Nat} {op : Operator} {value : Value}
      {next after : Cursor} :
      readPath word position = .ok path → Token.read region c = .ok (some ⟨.word w, k, next⟩) →
        isKeyword w Operator.presentKeyword = false → Operator.ofKeyword? w = some op →
          readValue next = .ok (value, after) →
            ReadsCondition region word position c (.compare op path value) after

theorem readCondition_eq_ok_iff :
    readCondition region word position c = .ok (f, after) ↔
      ReadsCondition region word position c f after := by
  constructor
  · intro h
    unfold readCondition at h
    split at h
    · cases h
    rename_i hpath
    split at h
    · cases h
    · cases h
    · rename_i htoken
      split at h
      · rename_i hpresent
        cases h
        exact .present hpath htoken hpresent
      rename_i hpresent
      split at h
      · cases h
      rename_i hop
      split at h
      · cases h
      rename_i hvalue
      cases h
      exact .compare hpath htoken (Bool.eq_false_iff.mpr hpresent) hop hvalue
    · cases h
  · intro h
    cases h with
    | present hpath htoken hpresent => simp [readCondition, hpath, htoken, hpresent]
    | compare hpath htoken hpresent hop hvalue =>
        simp [readCondition, hpath, htoken, hpresent, hop, hvalue]

/-- What a phrase is read from, where an operand is due or not. -/
inductive Reads (region : Region) : Bool → Cursor → Phrase → Cursor → Prop where
  | openGroup {c next : Cursor} {k : Nat} :
      Token.read region c = .ok (some ⟨.openParen, k, next⟩) →
        Reads region true c (.openGroup false) next
  | openNegated {c next after : Cursor} {w : List Char} {k m : Nat} :
      Token.read region c = .ok (some ⟨.word w, k, next⟩) → isKeyword w "not" = true →
        Token.read region next = .ok (some ⟨.openParen, m, after⟩) →
          Reads region true c (.openGroup true) after
  | operand {c next after : Cursor} {w : List Char} {k : Nat} {f : Filter} :
      Token.read region c = .ok (some ⟨.word w, k, next⟩) → isKeyword w "not" = false →
        readCondition region w k next = .ok (f, after) → Reads region true c (.operand f) after
  | openValue {c next : Cursor} {w : List Char} {k : Nat} {path : Path} :
      Token.read region c = .ok (some ⟨.valuePath w, k, next⟩) → w ≠ [] →
        readPath w k = .ok path → Reads region true c (.openValue path k) next
  | join {c next : Cursor} {w : List Char} {k : Nat} {j : Junction} :
      Token.read region c = .ok (some ⟨.word w, k, next⟩) → isKeyword w j.keyword = true →
        Reads region false c (.join j) next
  | closeGroup {c next : Cursor} {k : Nat} :
      Token.read region c = .ok (some ⟨.closeParen, k, next⟩) →
        Reads region false c (.closeGroup k) next
  | closeValue {c next : Cursor} {k : Nat} :
      Token.read region c = .ok (some ⟨.closeBracket, k, next⟩) →
        Reads region false c .closeValue next

theorem Reads.of_readOperand {token : Token}
    (htoken : Token.read region c = .ok (some ⟨token, k, next⟩))
    (h : readOperand region token k next = .ok (phrase, after)) :
    Reads region true c phrase after := by
  unfold readOperand at h
  split at h
  · cases h
    exact .openGroup htoken
  · split at h
    · rename_i hnot
      unfold readNegated at h
      split at h
      · cases h
      · cases h
      · rename_i hparen
        cases h
        exact .openNegated htoken hnot hparen
      · cases h
    rename_i hnot
    split at h
    · cases h
    rename_i hcondition
    cases h
    exact .operand htoken (Bool.eq_false_iff.mpr hnot) hcondition
  · split at h
    · cases h
    rename_i hne
    split at h
    · cases h
    rename_i hpath
    cases h
    exact .openValue htoken (by simpa using hne) hpath
  · cases h
  · cases h

theorem Reads.of_ofToken {token : Token}
    (htoken : Token.read region c = .ok (some ⟨token, k, next⟩))
    (h : ofToken token k = .ok phrase) : Reads region false c phrase next := by
  unfold ofToken at h
  split at h
  · cases h
    exact .closeGroup htoken
  · cases h
    exact .closeValue htoken
  · split at h
    · rename_i hand
      cases h
      exact .join htoken hand
    split at h
    · rename_i hor
      cases h
      exact .join htoken hor
    · cases h
  · cases h
  · cases h

/-- **A phrase is read from what the relation tells**, and from nothing else. -/
theorem read_eq_some_iff :
    read region due c = .ok (some (phrase, after)) ↔ Reads region due c phrase after := by
  constructor
  · intro h
    unfold read at h
    split at h
    · cases h
    · cases h
    rename_i htoken
    split at h
    · rename_i hdue
      split at h
      · cases h
      rename_i hoperand
      cases h
      exact hdue ▸ .of_readOperand htoken hoperand
    · rename_i hdue
      split at h
      · cases h
      rename_i hphrase
      cases h
      exact Bool.eq_false_iff.mpr hdue ▸ .of_ofToken htoken hphrase
  · intro h
    cases h with
    | openGroup htoken => simp [read, htoken, readOperand]
    | openNegated htoken hnot hparen =>
        simp [read, htoken, readOperand, hnot, readNegated, hparen]
    | operand htoken hnot hcondition => simp [read, htoken, readOperand, hnot, hcondition]
    | openValue htoken hne hpath => simp [read, htoken, readOperand, hne, hpath]
    | @join c next w k j htoken hw =>
        cases j with
        | and => simp [read, htoken, ofToken, hw]
        | or => simp [read, htoken, ofToken, hw, Text.isKeyword_and_or hw]
    | closeGroup htoken => simp [read, htoken, ofToken]
    | closeValue htoken => simp [read, htoken, ofToken]

theorem read_eq_none_iff : read region due c = .ok none ↔ Token.read region c = .ok none := by
  constructor
  · intro h
    unfold read at h
    split at h
    · cases h
    · assumption
    · split at h
      · split at h <;> cases h
      · split at h <;> cases h
  · intro h
    simp only [read, h]

/-! ### What a phrase is refused for -/

theorem readPath_eq_error {e : Error} (h : readPath word position = .error e) :
    ∃ reason, e = .invalidAttributePath position reason := by
  unfold readPath at h
  split at h
  · cases h
    exact ⟨_, rfl⟩
  · cases h

theorem ofToken_eq_error {token : Token} {e : Error} (h : ofToken token position = .error e) :
    e = .unexpectedToken token.text position := by
  unfold ofToken at h
  split at h
  · cases h
  · cases h
  · split at h
    · cases h
    · split at h <;> cases h
      rfl
  · cases h
    rfl
  · cases h
    rfl

end Phrase

end ScimQuery
