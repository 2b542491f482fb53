import ScimQuery.Filter.Canonical
import ScimQuery.Json.Skip
import ScimQuery.Parse
import ScimQuery.Text.Shown

/-!
# Document

Filters, paths, values and limits carried in JSON documents.  A filter or a path is a string
that spells it, a value is itself, and limits are an object with the members `max_length` and
`max_depth`, or a list of the two in this order; either may be missing, and members that are not
known are passed over.

A document is decoded as it is read, so that of two faults the one met first is reported.
-/

namespace ScimQuery

/-- Why a document is refused. -/
inductive DocumentFault where
  /-- The text is not JSON. -/
  | json (fault : Json.Fault)
  /-- Something else than what was expected was found, in front of `rest`. -/
  | unexpected (found expected : String) (rest : List Char)
  /-- A limit is negative. -/
  | negative (n : Int) (rest : List Char)
  /-- A member is given twice. -/
  | duplicate (member : String) (rest : List Char)
  /-- The value is a list or an object. -/
  | notScalar
  /-- The text of the filter or path is refused. -/
  | refused (error : Error)

/-- The wording of a refusal of `text`. -/
def DocumentFault.message (text : List Char) : DocumentFault → String
  | .json fault => fault.message text
  | .unexpected found expected rest =>
    placedBefore s!"invalid type: {found}, expected {expected}" rest
  | .negative n rest => placedBefore s!"invalid value: integer `{n}`, expected usize" rest
  | .duplicate member rest => placedBefore s!"duplicate field `{member}`" rest
  | .notScalar => "data did not match any variant of untagged enum ValueNode"
  | .refused error => error.message
where
  /-- A message with the place in front of `rest`. -/
  placedBefore (message : String) (rest : List Char) : String :=
    Json.placed message text (Json.byteSize text - Json.byteSize rest)

namespace Document

open Json (Fault skipSpace)

/-- A text no longer than `cs`. -/
abbrev Rest (cs : List Char) := { rest : List Char // rest.length ≤ cs.length }

/-- A fault of the JSON reader as a fault of the document. -/
def lift {α : Type} : Except Fault α → Except DocumentFault α
  | .error fault => .error (.json fault)
  | .ok a => .ok a

/-- The words for a number in a message. -/
def describeNumber : Number → String
  | .whole n => "integer `" ++ String.ofList (Number.intChars n.val) ++ "`"
  | .double d => "floating point `" ++ String.ofList d.chars ++ "`"

/-- The fault of finding, at the start of `cs`, something else than was expected.  A list or an
object is refused at its start, anything else after its end. -/
def mismatch (expected : String) (cs : List Char) : DocumentFault :=
  match cs with
  | [] => .json (.on .endInValue [])
  | c :: rest =>
    if c = '[' then .unexpected "sequence" expected cs
    else if c = '\x7b' then .unexpected "map" expected cs
    else if c = '"' then
      match Json.readQuoted rest with
      | .error fault => .json fault
      | .ok (s, after) =>
        .unexpected ("string " ++ String.ofList (Text.shown s)) expected after
    else
      match Json.readValue cs with
      | .error fault => .json fault
      | .ok (.null, after) => .unexpected "null" expected after
      | .ok (.bool b, after) =>
        .unexpected ("boolean `" ++ String.ofList (Json.boolChars b) ++ "`") expected after
      | .ok (.number n, after) => .unexpected (describeNumber n) expected after
      | .ok (_, after) => .unexpected "" expected after

/-- Checks that only spaces are left. -/
def close {α : Type} (a : α) (rest : List Char) : Except DocumentFault α :=
  match skipSpace rest with
  | [] => .ok a
  | more => .error (.json (.on .trailingText more))

/-- A document that is a string, decoded by `decode`. -/
def ofString {α : Type} (decode : String → Except Error α) (cs : List Char) :
    Except DocumentFault α :=
  match skipSpace cs with
  | '"' :: rest => do
    let (s, after) ← lift (Json.readQuoted rest)
    match decode (String.ofList s) with
    | .error e => .error (.refused e)
    | .ok a => close a after
  | start => .error (mismatch "a string" start)

/-- A limit: a number that is not negative. -/
def readLimit (cs : List Char) : Except DocumentFault (Nat × Rest cs) :=
  match hs : skipSpace cs with
  | [] => .error (mismatch "usize" [])
  | c :: more =>
    if c = '-' ∨ Json.isDigit c then
      match h : Json.readNumeral (c :: more) with
      | .error fault => .error (.json fault)
      | .ok (.whole n, rest) =>
        if n.val < 0 then .error (.negative n.val rest)
        else .ok (n.val.toNat, ⟨rest, by
          have := Json.readNumeral_length h
          have := Json.length_of_skipSpace hs
          simp only [List.length_cons] at *
          omega⟩)
      | .ok (.double d, rest) => .error (.unexpected (describeNumber (.double d)) "usize" rest)
    else .error (mismatch "usize" (c :: more))

/-- A limit that may be null. -/
def readOptionalLimit (cs : List Char) : Except DocumentFault (Option Nat × Rest cs) :=
  match hs : skipSpace cs with
  | 'n' :: more =>
    match h : Json.readWord "ull".toList more with
    | .error fault => .error (.json fault)
    | .ok rest => .ok (none, ⟨rest, by
        have := Json.readWord_length h
        have := Json.length_of_skipSpace hs
        omega⟩)
  | _ =>
    match readLimit cs with
    | .error fault => .error fault
    | .ok (n, rest) => .ok (some n, rest)

/-- The members of an object that have been read. -/
structure LimitsSoFar where
  maxLength : Option (Option Nat) := none
  maxDepth : Option Nat := none

/-- The limits of the members read, the others as they are by default. -/
def LimitsSoFar.limits (s : LimitsSoFar) : Limits :=
  let default : Limits := {}
  ⟨s.maxLength.getD default.maxLength, s.maxDepth.getD default.maxDepth⟩

/-- The value of a member whose key has been read. -/
def LimitsSoFar.readMember (s : LimitsSoFar) (key : String) (cs : List Char) :
    Except DocumentFault (LimitsSoFar × List Char) :=
  if (key = "max_length" ∧ s.maxLength.isSome) ∨ (key = "max_depth" ∧ s.maxDepth.isSome) then
    let rest := match skipSpace cs with
      | '\x7d' :: rest => rest
      | rest => rest
    .error (.duplicate key rest)
  else do
    let value ← lift (Json.readColon cs)
    if key = "max_length" then
      let (n, rest) ← readOptionalLimit value
      return ({ s with maxLength := some n }, rest.val)
    else if key = "max_depth" then
      let (n, rest) ← readLimit value
      return ({ s with maxDepth := some n }, rest.val)
    else return (s, ← lift (Json.skipValue value))

/-- The members of an object, after its opening brace (`first`) or after a member. -/
def readMembers (s : LimitsSoFar) (first : Bool) (cs : List Char) :
    Except DocumentFault (LimitsSoFar × List Char) :=
  match Json.nextMember first cs with
  | .error fault => .error (.json fault)
  | .ok (.closed rest) => .ok (s, rest)
  | .ok (.more start) =>
    match Json.readQuoted start with
    | .error fault => .error (.json fault)
    | .ok (key, after) =>
      match s.readMember (String.ofList key) after with
      | .error fault => .error fault
      | .ok (s', rest) =>
        if rest.length < cs.length then readMembers s' false rest
        else .error (.json (.on .expectedObjectEnd rest))
termination_by cs.length

/-- The end of a list all of whose items have been read. -/
def closeList (cs : List Char) : Except Fault (List Char) :=
  match skipSpace cs with
  | [] => .error (.on .endInList [])
  | ']' :: rest => .ok rest
  | ',' :: rest =>
    match skipSpace rest with
    | ']' :: more => .error (.on .trailingComma (']' :: more))
    | more => .error (.on .trailingText more)
  | rest => .error (.on .trailingText rest)

/-- The items of a list of limits, after its opening bracket. -/
def readItems (cs : List Char) : Except DocumentFault (LimitsSoFar × List Char) := do
  match ← lift (Json.nextItem true cs) with
  | .closed rest => return ({}, rest)
  | .more start =>
    let (maxLength, rest) ← readOptionalLimit start
    match ← lift (Json.nextItem false rest.val) with
    | .closed rest => return (⟨some maxLength, none⟩, rest)
    | .more start =>
      let (maxDepth, rest) ← readLimit start
      return (⟨some maxLength, some maxDepth⟩, ← lift (closeList rest.val))

end Document

open Document

/-- The filter that a document carries. -/
def Filter.ofDocument (text : List Char) : Except DocumentFault Filter :=
  Document.ofString (parseFilter {}) text

/-- The path that a document carries. -/
def Path.ofDocument (text : List Char) : Except DocumentFault Path :=
  Document.ofString (parsePath {}) text

/-- The value that a document carries. -/
def Value.ofDocument (text : List Char) : Except DocumentFault Value := do
  let (v, rest) ← Document.lift (Json.readValue (Json.skipSpace text))
  match Value.ofJson? v with
  | none => .error .notScalar
  | some value => Document.close value rest

/-- The limits that a document carries. -/
def Limits.ofDocument (text : List Char) : Except DocumentFault Limits := do
  let (s, rest) ← match Json.skipSpace text with
    | '\x7b' :: rest => Document.readMembers {} true rest
    | '[' :: rest => Document.readItems rest
    | start => .error (Document.mismatch "struct ParseOptions" start)
  Document.close s.limits rest

/-- A filter as a document. -/
def Filter.document (f : Filter) : String :=
  (Json.string f.text).compact

/-- A path as a document. -/
def Path.document (p : Path) : String :=
  (Json.string p.text).compact

/-- Limits as a document. -/
def Limits.document (l : Limits) : String :=
  let maxLength := match l.maxLength with
    | some n => s!"\"max_length\":{n},"
    | none => ""
  "\x7b" ++ maxLength ++ s!"\"max_depth\":{l.maxDepth}" ++ "\x7d"

end ScimQuery
