import ScimQuery.Json.Reader
import ScimQuery.Value

/-!
# Literal

The comparison value at the front of the unread part of a filter.  After the JSON space in
front of it, a value that starts with a quote or an opening bracket is read from all that
follows; any other value ends before a space, a closing parenthesis or a closing bracket, since
those end it in a filter but not in JSON.

A whole number that does not fit 64 bits is refused instead of being rounded, and so is `-0`.
-/

namespace ScimQuery

/-- Why the text in the place of a comparison value is refused. -/
inductive LiteralFault where
  /-- A closing character stands where the value should start. -/
  | missing (c : Char)
  /-- The text is not JSON. -/
  | json (fault : Json.Fault) (text : List Char)
  /-- The digits spell a number that does not fit. -/
  | outOfRange (text : List Char)
  /-- The value is a list or an object. -/
  | notScalar (v : Json)

/-- The wording of a refusal. -/
def LiteralFault.message : LiteralFault → String
  | .missing c => "expected a value, found '" ++ c.toString ++ "'"
  | .json fault text => fault.message text
  | .outOfRange text => "integer " ++ String.ofList text ++ " is out of range"
  | .notScalar v => "expected a JSON scalar, found " ++ v.compact

/-- A comparison value found at the front of a text. -/
structure Literal where
  /-- The value. -/
  value : Value
  /-- The number of characters it takes up: the space in front of it, its own, and one space
  after it if there is one. -/
  length : Nat
  deriving DecidableEq

namespace Literal

/-- Does `c` end a value that is not between quotes or brackets? -/
def isEnd (c : Char) : Bool :=
  c == ' ' || c == ')' || c == ']'

/-- Does a value that starts with `c` show its own end? -/
def isDelimited (c : Char) : Bool :=
  c == '"' || c == '[' || c == '\x7b'

/-- May `c` follow a value that does not show its own end? -/
def isBoundary (c : Char) : Bool :=
  Json.isSpace c || c == '"' || c == '[' || c == ']' || c == '\x7b' || c == '\x7d' || c == ',' ||
    c == ':'

/-- The part of `body` that is read as JSON. -/
def extent (body : List Char) : List Char :=
  match body with
  | [] => []
  | c :: _ => if isDelimited c then body else body.takeWhile (fun d => !isEnd d)

/-- Is the text one or more digits, perhaps after a minus sign? -/
def isInteger (cs : List Char) : Bool :=
  match cs with
  | '-' :: digits => !digits.isEmpty && digits.all Json.isDigit
  | digits => !digits.isEmpty && digits.all Json.isDigit

/-- Is the JSON value a number, and none of the whole ones? -/
def isDouble : Json → Bool
  | .number n => n.isDouble
  | _ => false

/-- The JSON value at the start of `text`, and the characters of `text` that it takes up. -/
def decode (text : List Char) : Except Json.Fault (Json × List Char) :=
  match Json.readValue text with
  | .error fault => .error fault
  | .ok (v, rest) =>
    let spelling := text.take (text.length - rest.length)
    match text.head?, rest with
    | some c, d :: _ =>
      if isDelimited c || isBoundary d then .ok (v, spelling)
      else .error (.on .trailingText rest)
    | _, _ => .ok (v, spelling)

/-- The comparison value at the front of `rest`; `none` if there are only spaces. -/
def scan (rest : List Char) : Except LiteralFault (Option Literal) :=
  let body := rest.dropWhile Json.isSpace
  let text := extent body
  match body, text with
  | [], _ => .ok none
  | c :: _, [] => .error (.missing c)
  | _, _ =>
    match decode text with
    | .error fault => .error (.json fault text)
    | .ok (v, spelling) =>
      if isDouble v && isInteger spelling then .error (.outOfRange spelling)
      else
        match Value.ofJson? v with
        | none => .error (.notScalar v)
        | some value => .ok (some (found value spelling))
where
  /-- The value, with the number of characters up to the end of its spelling and a space. -/
  found (value : Value) (spelling : List Char) : Literal :=
    let leading := (rest.takeWhile Json.isSpace).length
    let stop := leading + spelling.length
    ⟨value, if (rest.drop stop).head? = some ' ' then stop + 1 else stop⟩

end Literal

end ScimQuery
