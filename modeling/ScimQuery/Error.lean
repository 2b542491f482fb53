/-!
# Error

Why a text is refused as a filter or as a path, and where.  `Error.message` holds the wording
of every cause, `Error.position?` the place it points at, counted in characters from the start
of the text.  A text is refused, too, when it goes beyond the limits under which it is read
(`Limits`).
-/

namespace ScimQuery

/-- How long a text and how deep a filter may be. -/
structure Limits where
  /-- The largest number of characters of a text, if it is limited. -/
  maxLength : Option Nat := none
  /-- The largest number of groups and value filters that are open at once. -/
  maxDepth : Nat := 64
  deriving Repr, DecidableEq

/-- A cause of refusal. -/
inductive Error where
  /-- A character that no token may hold, in the token that starts at `tokenStart`. -/
  | unexpectedCharacter (character : Char) (position tokenStart : Nat)
  /-- The filter ends too early. -/
  | unexpectedEndOfFilter
  /-- The path ends too early. -/
  | unexpectedEndOfPath
  /-- An attribute name is missing. -/
  | attributeNameExpected (position : Nat)
  /-- A `not` has no group after it. -/
  | openParenExpected (position : Nat)
  /-- A group is closed that was not opened. -/
  | unmatchedCloseParen (position : Nat)
  /-- A value filter is not closed; `position` is where its path starts. -/
  | unclosedBracket (position : Nat)
  /-- A token stands where it makes no sense. -/
  | unexpectedToken (token : String) (position : Nat)
  /-- A word stands where an operator is due; `suggestion` is an operator spelled nearly so. -/
  | unknownOperator (operator : String) (position : Nat) (suggestion : Option String)
  /-- The comparison value is refused. -/
  | invalidValue (position : Nat) (reason : String)
  /-- The word in the place of an attribute is no path, for the reason given by `source`. -/
  | invalidAttributePath (position : Nat) (source : Error)
  /-- An `and` or `or` of fewer than two filters. -/
  | tooFewOperands (count : Nat)
  /-- The text is longer than the limit. -/
  | inputTooLong (length max : Nat)
  /-- The filter is deeper than the limit. -/
  | nestingTooDeep (max : Nat)
  deriving Repr, DecidableEq, Inhabited

namespace Error

/-- The wording of a refusal. -/
def message : Error → String
  | unexpectedCharacter c position tokenStart =>
    s!"unexpected character '{c}' at position {position} for token starting at {tokenStart}"
  | unexpectedEndOfFilter => "unexpected end of filter string"
  | unexpectedEndOfPath => "unexpected end of path string"
  | attributeNameExpected position => s!"attribute name expected at position {position}"
  | openParenExpected position => s!"expected '(' at position {position}"
  | unmatchedCloseParen position =>
    s!"no opening parenthesis matching closing parenthesis at position {position}"
  | unclosedBracket position => s!"missing ']' for value filter opened at position {position}"
  | unexpectedToken token position => s!"unexpected token '{token}' at position {position}"
  | unknownOperator operator position suggestion =>
    let hint := match suggestion with
      | some keyword => s!". Did you mean '{keyword}'?"
      | none => ""
    s!"unrecognized attribute operator '{operator}' at position {position}. " ++
      "Expected: eq,ne,co,sw,ew,pr,gt,ge,lt,le" ++ hint
  | invalidValue position reason =>
    s!"invalid comparison value at position {position}: {reason}"
  | invalidAttributePath position source =>
    s!"invalid attribute path at position {position}: " ++ source.message
  | tooFewOperands count => s!"a combining filter needs at least 2 operands, got {count}"
  | inputTooLong length max => s!"input is {length} characters long, the limit is {max}"
  | nestingTooDeep max => s!"filter nesting exceeds the maximum depth of {max}"

/-- The place that a refusal points at. -/
def position? : Error → Option Nat
  | unexpectedCharacter _ position _ => some position
  | attributeNameExpected position => some position
  | openParenExpected position => some position
  | unmatchedCloseParen position => some position
  | unclosedBracket position => some position
  | unexpectedToken _ position => some position
  | unknownOperator _ position _ => some position
  | invalidValue position _ => some position
  | invalidAttributePath position _ => some position
  | unexpectedEndOfFilter => none
  | unexpectedEndOfPath => none
  | tooFewOperands _ => none
  | inputTooLong _ _ => none
  | nestingTooDeep _ => none

end Error

end ScimQuery
