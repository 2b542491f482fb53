/-!
# Json — Fault

Why and where a JSON text is refused.  A reader notices a fault in front of some unread text;
the fault keeps that text and the number of its bytes that count as read.  `Fault.message`
turns this into a line and a column, where lines end at a line feed and columns count the bytes
of the text in UTF-8.
-/

namespace ScimQuery.Json

/-- What is wrong with a JSON text. -/
inductive Reason where
  | endInValue
  | endInString
  | endInList
  | endInObject
  | expectedWord
  | expectedValue
  | expectedColon
  | expectedListEnd
  | expectedObjectEnd
  | trailingComma
  | trailingText
  | keyNotString
  | invalidNumber
  | numberOutOfRange
  | controlCharacter
  | invalidEscape
  | loneSurrogate
  | unfinishedSurrogate
  | nestingTooDeep
  deriving Repr, DecidableEq

/-- The wording of a reason. -/
def Reason.message : Reason → String
  | .endInValue => "EOF while parsing a value"
  | .endInString => "EOF while parsing a string"
  | .endInList => "EOF while parsing a list"
  | .endInObject => "EOF while parsing an object"
  | .expectedWord => "expected ident"
  | .expectedValue => "expected value"
  | .expectedColon => "expected `:`"
  | .expectedListEnd => "expected `,` or `]`"
  | .expectedObjectEnd => "expected `,` or `\x7d`"
  | .trailingComma => "trailing comma"
  | .trailingText => "trailing characters"
  | .keyNotString => "key must be a string"
  | .invalidNumber => "invalid number"
  | .numberOutOfRange => "number out of range"
  | .controlCharacter => "control character (\\u0000-\\u001F) found while parsing a string"
  | .invalidEscape => "invalid escape"
  | .loneSurrogate => "lone leading surrogate in hex escape"
  | .unfinishedSurrogate => "unexpected end of hex escape"
  | .nestingTooDeep => "recursion limit exceeded"

/-- A refusal: the reason, the text that was unread when it was noticed, and how many of its
bytes count as read. -/
structure Fault where
  reason : Reason
  rest : List Char
  ahead : Nat
  deriving Repr, DecidableEq

namespace Fault

/-- A fault placed in front of the unread text. -/
def before (reason : Reason) (rest : List Char) : Fault :=
  ⟨reason, rest, 0⟩

/-- A fault placed after the next byte of the unread text. -/
def on (reason : Reason) (rest : List Char) : Fault :=
  ⟨reason, rest, 1⟩

end Fault

/-- The number of bytes of a text in UTF-8. -/
def byteSize (cs : List Char) : Nat :=
  cs.foldl (fun bytes c => bytes + c.utf8Size) 0

/-- The line and column after the first `bytes` bytes of a text, counted on from a line and a
column. -/
def placeFrom (line column : Nat) : (bytes : Nat) → List Char → Nat × Nat
  | 0, _ => (line, column)
  | _, [] => (line, column)
  | bytes + 1, c :: cs =>
    if c = '\n' then placeFrom (line + 1) 0 bytes cs
    else if bytes + 1 < c.utf8Size then (line, column + (bytes + 1))
    else placeFrom line (column + c.utf8Size) (bytes + 1 - c.utf8Size) cs

/-- The line, from 1, and the column, from 0, after the first `bytes` bytes of a text. -/
def place (text : List Char) (bytes : Nat) : Nat × Nat :=
  placeFrom 1 0 bytes text

/-- A message with its place in the text. -/
def placed (message : String) (text : List Char) (bytes : Nat) : String :=
  let (line, column) := place text bytes
  s!"{message} at line {line} column {column}"

/-- The number of bytes of `text` before the place of a fault in it. -/
def Fault.offset (fault : Fault) (text : List Char) : Nat :=
  byteSize text - byteSize fault.rest + min fault.ahead (byteSize fault.rest)

/-- The message of a fault found in `text`. -/
def Fault.message (fault : Fault) (text : List Char) : String :=
  placed fault.reason.message text (fault.offset text)

end ScimQuery.Json
