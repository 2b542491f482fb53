import ScimQuery.Json.Quoted
import ScimQuery.Number.Text

/-!
# Json

JSON values and their text.  The members of an object are kept in the order of their keys,
each key once: `Json.Members.insert` puts a member in its place and replaces one of the same
key.  `Json.chars` writes a value without any space, `Json.pretty` over several lines.
-/

namespace ScimQuery

/-- A JSON value. -/
inductive Json where
  | null
  | bool (b : Bool)
  | number (n : Number)
  | string (s : String)
  | array (items : List Json)
  | object (members : List (String × Json))
  deriving Inhabited

namespace Json

/-- Puts a member among members that are in the order of their keys.  A member of the same key
is replaced. -/
def insertMember (key : String) (value : Json) :
    List (String × Json) → List (String × Json)
  | [] => [(key, value)]
  | (k, v) :: more =>
    if key < k then (key, value) :: (k, v) :: more
    else if key = k then (key, value) :: more
    else (k, v) :: insertMember key value more

/-- The object of some members, a later one replacing an earlier one of the same key. -/
def ofMembers (members : List (String × Json)) : Json :=
  .object (members.foldl (fun sorted (key, value) => insertMember key value sorted) [])

/-- The JSON value of an integer, which is rounded if it does not fit 64 bits. -/
def ofInt (n : Int) : Json :=
  match Number.Whole.ofInt? n, Number.Double.ofInt? n with
  | some w, _ => .number (.whole w)
  | none, some d => .number (.double d)
  | none, none => .null

/-- The words for truth values. -/
def boolChars (b : Bool) : List Char :=
  (if b then "true" else "false").toList

mutual

/-- The text of a value, without spaces, in front of `rest`. -/
def write : Json → List Char → List Char
  | .null, rest => "null".toList ++ rest
  | .bool b, rest => boolChars b ++ rest
  | .number n, rest => n.chars ++ rest
  | .string s, rest => quote s.toList ++ rest
  | .array items, rest => '[' :: writeItems items (']' :: rest)
  | .object members, rest => '\x7b' :: writeMembers members ('\x7d' :: rest)

/-- The items of an array, with commas between them, in front of `rest`. -/
def writeItems : List Json → List Char → List Char
  | [], rest => rest
  | [v], rest => v.write rest
  | v :: w :: more, rest => v.write (',' :: writeItems (w :: more) rest)

/-- The members of an object, with commas between them, in front of `rest`. -/
def writeMembers : List (String × Json) → List Char → List Char
  | [], rest => rest
  | [(k, v)], rest => quote k.toList ++ ':' :: v.write rest
  | (k, v) :: m :: more, rest =>
    quote k.toList ++ ':' :: v.write (',' :: writeMembers (m :: more) rest)

end

/-- The text of a value, without spaces. -/
def chars (v : Json) : List Char :=
  v.write []

/-- The start of a line, two spaces for each level. -/
def newline (level : Nat) : List Char :=
  '\n' :: List.replicate (2 * level) ' '

mutual

/-- The text of a value over several lines, each item and member on a line of its own. -/
def prettyAt (level : Nat) : Json → List Char
  | .array (v :: more) =>
    '[' :: (prettyItems (level + 1) (v :: more) ++ newline level ++ [']'])
  | .object (m :: more) =>
    '\x7b' :: (prettyMembers (level + 1) (m :: more) ++ newline level ++ ['\x7d'])
  | v => v.chars

/-- The items of an array, each on a line of its own. -/
def prettyItems (level : Nat) : List Json → List Char
  | [] => []
  | [v] => newline level ++ v.prettyAt level
  | v :: w :: more => newline level ++ v.prettyAt level ++ ',' :: prettyItems level (w :: more)

/-- The members of an object, each on a line of its own. -/
def prettyMembers (level : Nat) : List (String × Json) → List Char
  | [] => []
  | [(k, v)] => newline level ++ quote k.toList ++ ':' :: ' ' :: v.prettyAt level
  | (k, v) :: m :: more =>
    newline level ++ quote k.toList ++
      ':' :: ' ' :: (v.prettyAt level ++ ',' :: prettyMembers level (m :: more))

end

/-- The text of a value, without spaces. -/
def compact (v : Json) : String :=
  String.ofList v.chars

/-- The text of a value over several lines. -/
def pretty (v : Json) : String :=
  String.ofList (v.prettyAt 0)

end Json

end ScimQuery
