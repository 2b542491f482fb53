import ScimQuery.Filter.Basic
import ScimQuery.Path.Piece
import ScimQuery.Text.Compare

/-!
# Path — Reader

Putting a path together from its pieces.  The first piece may name a schema: when it starts
with `urn:`, the schema is the part before its last colon.  A schema with nothing after it is a
path of its own, the root of an extension.  An attribute with a value filter is followed by a
dot or by the end of the text.

What follows an opening bracket is read by another reader, handed in as `within`: a path by
itself may hold value filters (`ScimQuery.Parse`), the path of a condition inside a filter may
not (`Path.ofWord`).
-/

namespace ScimQuery.Path

open Text (Cursor)

/-- Splits a name at its last colon. -/
def splitLastColon? : List Char → Option (List Char × List Char)
  | [] => none
  | c :: cs =>
    match splitLastColon? cs with
    | some (left, right) => some (c :: left, right)
    | none => if c = ':' then some ([], cs) else none

/-- Does the name start with `urn:`, in any case? -/
def hasSchema (name : List Char) : Bool :=
  Text.isKeyword (name.take 4) "urn:"

/-- The schema in front of a name, if there is one, and the name proper. -/
def splitSchema (name : List Char) : Option String × List Char :=
  if hasSchema name then
    match splitLastColon? name with
    | some (urn, rest) => (some (String.ofList urn), rest)
    | none => (none, name)
  else (none, name)

/-- A reader of the value filter after an opening bracket.  It is given where the name before
the bracket starts, and does not go back in the text. -/
abbrev Within :=
  (opened : Nat) → (c : Cursor) →
    Except Error (Filter × { d : Cursor // d.rest.length ≤ c.rest.length })

/-- The rest of a path, and the place after it.  `path` is what has been read, `none` before the
first attribute, and `dotDue` says that the last attribute has a value filter, so that a dot must
follow. -/
def readFrom (within : Within) (path : Option Path) (dotDue : Bool) (c : Cursor) :
    Except Error (Path × Cursor) :=
  match h : Piece.read c with
  | .error e => .error e
  | .ok none => .ok (path.getD .resource, c)
  | .ok (some piece) =>
    have _ := Piece.read_length h
    if piece.name.isEmpty ∧ ¬ piece.opens then
      if dotDue then readFrom within path false piece.next
      else .error (.attributeNameExpected piece.position)
    else if dotDue then .error (.unexpectedToken (String.ofList piece.name) piece.position)
    else
      let (urn, name) := match path with
        | none => splitSchema piece.name
        | some _ => (none, piece.name)
      let parent := path.getD (.root urn)
      if name.isEmpty then
        match urn, piece.opens with
        | some _, false => .ok (parent, piece.next)
        | _, _ => .error (.attributeNameExpected piece.position)
      else if piece.opens then
        match within piece.position piece.next with
        | .error e => .error e
        | .ok (filter, ⟨next, _⟩) =>
          readFrom within (some (.subWhere parent (String.ofList name) filter)) true next
      else readFrom within (some (.sub parent (String.ofList name))) false piece.next
termination_by c.rest.length

/-- The path of a condition, from the word that names it.  A word holds no bracket, so that a
value filter in it would have no end. -/
def ofWord (word : List Char) : Except Error Path := do
  let (path, _) ← readFrom (fun opened _ => .error (.unclosedBracket opened)) none false
    (.start word)
  return path

end ScimQuery.Path
