import ScimQuery.Toml.Quoted
import ScimQuery.Toml.Scalar

/-!
# Toml — Reader

Reading a document line by line: a header opens a table, an assignment sets a key of the table
opened last.  Lists and tables between braces nest less than `maxNesting` deep, and a dotted key
has fewer parts than that.
-/

namespace ScimQuery.Toml

/-- Lists and tables between braces are not nested this deep. -/
def maxNesting : Nat := 80

/-! ### Space and comments -/

/-- The text after the spaces and tabs at its front. -/
def skipGaps (cs : List Char) : List Char :=
  cs.dropWhile isGap

/-- The text after the spaces, line breaks and comments at its front. -/
def skipSpace (cs : List Char) : List Char :=
  match cs with
  | [] => []
  | c :: rest =>
    if isGap c || c == '\n' then skipSpace rest
    else if c = '\r' ∧ rest.head? = some '\n' then skipSpace rest
    else if c = '#' then
      skipSpace (rest.dropWhile isTextChar)
    else cs
termination_by cs.length
decreasing_by
  · simp
  · simp
  · have := (List.dropWhile_sublist isTextChar (l := rest)).length_le
    simp only [List.length_cons]; omega

/-- The end of a line, after spaces and a comment: the lines after it. -/
def readLineEnd (cs : List Char) : Option (List Char) :=
  let rest := match skipGaps cs with
    | '#' :: comment => comment.dropWhile isTextChar
    | rest => rest
  match rest with
  | [] => some []
  | _ => newline? rest

/-! ### Keys -/

/-- May `c` stand in a key without quotes? -/
def isBareChar (c : Char) : Bool :=
  c.isAlphanum || c == '-' || c == '_'

/-- A part of a key, and the text after it. -/
def readKeyPart (cs : List Char) : Option (String × List Char) :=
  match cs with
  | [] => none
  | c :: rest =>
    if c = '"' ∨ c = '\'' then
      (readLine c rest).map (fun (s, after) => (String.ofList s, after))
    else if isBareChar c then
      some (String.ofList (cs.takeWhile isBareChar), cs.dropWhile isBareChar)
    else none

/-- The parts of a key, with dots between them, and the text after it and after spaces. -/
def readKey (cs : List Char) : Option (List String × List Char) := do
  let (part, after) ← readKeyPart (skipGaps cs)
  match skipGaps after with
  | '.' :: more =>
    if more.length < cs.length then
      let (parts, rest) ← readKey more
      return (part :: parts, rest)
    else none
  | rest => return ([part], rest)
termination_by cs.length

/-- The parts of a key but the last, and the last. -/
def splitKey? (parts : List String) : Option (List String × String) :=
  if parts.length < maxNesting then parts.getLast?.map (parts.dropLast, ·) else none

/-! ### Values -/

/-- A reader of an `α`: the value found, and the text after it. -/
abbrev Reader (α : Type) := List Char → Option (α × List Char)

/-- The items of a list after its opening bracket or after a comma. -/
def readItems (item : Reader Toml) (cs : List Char) : Option (List Toml × List Char) :=
  match skipSpace cs with
  | ']' :: rest => some ([], rest)
  | start => do
    let (v, rest) ← item start
    match skipSpace rest with
    | ']' :: after => return ([v], after)
    | ',' :: more =>
      if more.length < cs.length then
        let (vs, after) ← readItems item more
        return (v :: vs, after)
      else none
    | _ => none
termination_by cs.length

/-- A key, an equals sign and a value: the path of the key, its last part and the value. -/
def readAssignment (item : Reader Toml) : Reader (List String × String × Toml) := fun cs => do
  let (parts, rest) ← readKey cs
  let (path, key) ← splitKey? parts
  match rest with
  | '=' :: more =>
    let (v, after) ← item (skipGaps more)
    return ((path, key, v), after)
  | _ => none

/-- The assignments of a table between braces, on one line, from the first one on. -/
def readAssignments (item : Reader Toml) (entries : Entries) (cs : List Char) :
    Option (Entries × List Char) := do
  let ((path, key, v), rest) ← readAssignment item cs
  let entries ← entries.set path key v
  match skipGaps rest with
  | '\x7d' :: after => return (entries, after)
  | ',' :: more => if more.length < cs.length then readAssignments item entries more else none
  | _ => none
termination_by cs.length

/-- A value in which lists and tables between braces nest at most `nesting` deep. -/
def readValue (nesting : Nat) : Reader Toml := fun cs =>
  match nesting, cs with
  | _, '"' :: rest => (readString '"' rest).map (fun (s, after) => (.string s, after))
  | _, '\'' :: rest => (readString '\'' rest).map (fun (s, after) => (.string s, after))
  | nesting + 1, '[' :: rest =>
    (readItems (readValue nesting) rest).map (fun (vs, after) => (.array vs, after))
  | nesting + 1, '\x7b' :: rest =>
    match skipGaps rest with
    | '\x7d' :: after => some (.table .braces [], after)
    | start =>
      (readAssignments (readValue nesting) [] start).map
        (fun (es, after) => (.table .braces es, after))
  | _, _ => readScalar cs

/-! ### Documents -/

/-- The state of reading a document: the table so far, and the header opened last. -/
structure Document where
  entries : Entries := []
  header : List String := []

/-- The path of a header, up to the brackets that close it. -/
def readHeader (close : List Char) (cs : List Char) :
    Option ((List String × String) × List Char) := do
  let (parts, rest) ← readKey cs
  let found ← splitKey? parts
  if rest.take close.length = close then some (found, rest.drop close.length) else none

/-- Takes in the line at the front of a text: the document then, and the lines after it. -/
def Document.readLine (doc : Document) (cs : List Char) : Option (Document × List Char) :=
  match skipGaps cs with
  | '[' :: '[' :: rest => do
    let ((path, key), after) ← readHeader [']', ']'] rest
    return (⟨← doc.entries.pushTable path key, path ++ [key]⟩, ← readLineEnd after)
  | '[' :: rest => do
    let ((path, key), after) ← readHeader [']'] rest
    return (⟨← doc.entries.openTable path key, path ++ [key]⟩, ← readLineEnd after)
  | start =>
    match readLineEnd start with
    | some lines => some (doc, lines)
    | none => do
      let ((path, key, v), after) ← readAssignment (readValue (maxNesting - 1)) start
      return (⟨← doc.entries.setUnder doc.header path key v, doc.header⟩, ← readLineEnd after)

/-- Takes in all lines of a text. -/
def Document.readLines (doc : Document) (cs : List Char) : Option Document :=
  if cs.isEmpty then some doc
  else do
    let (doc, lines) ← doc.readLine cs
    if lines.length < cs.length then doc.readLines lines else none
termination_by cs.length

/-- The table of a document.  A byte order mark at its start does not count. -/
def read (cs : List Char) : Option Entries :=
  let body := match cs with
    | '\uFEFF' :: rest => rest
    | _ => cs
  (Document.readLines {} body).map (·.entries)

end ScimQuery.Toml
