import ScimQuery.Filter.Token
import ScimQuery.Literal
import ScimQuery.Path.Reader

/-!
# Filter — Phrase

The phrases of a filter: what one step of reading takes in.  Where an operand is due, this is a
whole condition on an attribute, or what opens a group or a value filter; after an operand it
is a junction, or what closes a group or a value filter.  Anything else is refused where it
stands.
-/

namespace ScimQuery

open Text (Cursor isKeyword)

/-- A phrase of a filter. -/
inductive Phrase where
  /-- A condition on an attribute. -/
  | operand (f : Filter)
  /-- The start of a group, `not` in front of it or not. -/
  | openGroup (negated : Bool)
  /-- A path and the start of its value filter; `position` is where the path starts. -/
  | openValue (path : Path) (position : Nat)
  /-- A junction. -/
  | join (j : Junction)
  /-- The end of a group. -/
  | closeGroup (position : Nat)
  /-- The end of a value filter. -/
  | closeValue

namespace Phrase

/-- The path that a word names. -/
def readPath (word : List Char) (position : Nat) : Except Error Path :=
  match Path.ofWord word with
  | .error e => .error (.invalidAttributePath position e)
  | .ok path => .ok path

/-- The comparison value at a place, and the place after it. -/
def readValue (c : Cursor) : Except Error (Value × Cursor) :=
  match Literal.scan c.rest with
  | .error fault => .error (.invalidValue c.position fault.message)
  | .ok none => .error .unexpectedEndOfFilter
  | .ok (some literal) => .ok (literal.value, c.skip literal.length)

/-- A condition on the attribute that `word` names, up to the place after it. -/
def readCondition (region : Region) (word : List Char) (position : Nat) (c : Cursor) :
    Except Error (Filter × Cursor) :=
  match readPath word position with
  | .error e => .error e
  | .ok path =>
    match Token.read region c with
    | .error e => .error e
    | .ok none => .error .unexpectedEndOfFilter
    | .ok (some ⟨.word op, place, next⟩) =>
      if isKeyword op Operator.presentKeyword then .ok (.present path, next)
      else
        match Operator.ofKeyword? op with
        | none => .error (.unknownOperator (String.ofList op) place (Operator.suggest? op))
        | some operator =>
          match readValue next with
          | .error e => .error e
          | .ok (value, after) => .ok (.compare operator path value, after)
    | .ok (some ⟨token, place, _⟩) => .error (.unknownOperator token.text place none)

/-- The parenthesis after a `not`. -/
def readNegated (region : Region) (c : Cursor) : Except Error (Phrase × Cursor) :=
  match Token.read region c with
  | .error e => .error e
  | .ok none => .error .unexpectedEndOfFilter
  | .ok (some ⟨.openParen, _, next⟩) => .ok (.openGroup true, next)
  | .ok (some ⟨_, place, _⟩) => .error (.openParenExpected place)

/-- The phrase that `token` starts where an operand is due. -/
def readOperand (region : Region) (token : Token) (position : Nat) (next : Cursor) :
    Except Error (Phrase × Cursor) :=
  match token with
  | .openParen => .ok (.openGroup false, next)
  | .word word =>
    if isKeyword word "not" then readNegated region next
    else
      match readCondition region word position next with
      | .error e => .error e
      | .ok (f, after) => .ok (.operand f, after)
  | .valuePath word =>
    if word.isEmpty then .error (.attributeNameExpected position)
    else
      match readPath word position with
      | .error e => .error e
      | .ok path => .ok (.openValue path position, next)
  | .closeParen => .error (.unexpectedToken token.text position)
  | .closeBracket => .error (.unexpectedToken token.text position)

/-- The phrase that `token` is after an operand. -/
def ofToken (token : Token) (position : Nat) : Except Error Phrase :=
  match token with
  | .closeParen => .ok (.closeGroup position)
  | .closeBracket => .ok .closeValue
  | .word word =>
    if isKeyword word Junction.and.keyword then .ok (.join .and)
    else if isKeyword word Junction.or.keyword then .ok (.join .or)
    else .error (.unexpectedToken token.text position)
  | .openParen => .error (.unexpectedToken token.text position)
  | .valuePath _ => .error (.unexpectedToken token.text position)

/-- The phrase at a place, and the place after it; `none` at the end of the text. -/
def read (region : Region) (operandDue : Bool) (c : Cursor) :
    Except Error (Option (Phrase × Cursor)) :=
  match Token.read region c with
  | .error e => .error e
  | .ok none => .ok none
  | .ok (some ⟨token, position, next⟩) =>
    if operandDue then
      match readOperand region token position next with
      | .error e => .error e
      | .ok found => .ok (some found)
    else
      match ofToken token position with
      | .error e => .error e
      | .ok phrase => .ok (some (phrase, next))

/-! ### Every phrase has a character -/

theorem readValue_length {c after : Cursor} {v : Value} (h : readValue c = .ok (v, after)) :
    after.rest.length ≤ c.rest.length := by
  unfold readValue at h
  split at h
  · cases h
  · cases h
  · cases h; exact c.length_skip_le _

theorem readCondition_length {region : Region} {word : List Char} {position : Nat}
    {c after : Cursor} {f : Filter} (h : readCondition region word position c = .ok (f, after)) :
    after.rest.length ≤ c.rest.length := by
  unfold readCondition at h
  split at h
  · cases h
  · split at h
    · cases h
    · cases h
    · rename_i htoken
      have h₁ := Token.read_length htoken
      split at h
      · cases h; exact Nat.le_of_lt h₁
      · split at h
        · cases h
        · split at h
          · cases h
          · rename_i hvalue
            have h₂ := readValue_length hvalue
            cases h
            exact Nat.le_of_lt (Nat.lt_of_le_of_lt h₂ h₁)
    · cases h

theorem readNegated_length {region : Region} {c after : Cursor} {phrase : Phrase}
    (h : readNegated region c = .ok (phrase, after)) : after.rest.length ≤ c.rest.length := by
  unfold readNegated at h
  split at h
  · cases h
  · cases h
  · rename_i htoken
    cases h
    exact Nat.le_of_lt (Token.read_length htoken)
  · cases h

theorem readOperand_length {region : Region} {token : Token} {position : Nat}
    {next after : Cursor} {phrase : Phrase}
    (h : readOperand region token position next = .ok (phrase, after)) :
    after.rest.length ≤ next.rest.length := by
  unfold readOperand at h
  split at h
  · cases h; exact Nat.le_refl _
  · split at h
    · exact readNegated_length h
    · split at h
      · cases h
      · rename_i hcondition
        cases h
        exact readCondition_length hcondition
  · split at h
    · cases h
    · split at h
      · cases h
      · cases h; exact Nat.le_refl _
  · cases h
  · cases h

theorem read_length {region : Region} {operandDue : Bool} {c after : Cursor} {phrase : Phrase}
    (h : read region operandDue c = .ok (some (phrase, after))) :
    after.rest.length < c.rest.length := by
  unfold read at h
  split at h
  · cases h
  · cases h
  · rename_i htoken
    have h₁ := Token.read_length htoken
    split at h
    · split at h
      · cases h
      · rename_i hoperand
        cases h
        exact Nat.lt_of_le_of_lt (readOperand_length hoperand) h₁
    · split at h
      · cases h
      · cases h; exact h₁

end Phrase

end ScimQuery
