import ScimQuery.Json.Quoted

/-!
# Toml — Quoted

Strings between quotes: single or double ones, over one line or, with the quotes tripled, over
several.  Between double quotes a backslash starts an escape.
-/

namespace ScimQuery.Toml

/-- May `c` stand in a string or in a comment? -/
def isTextChar (c : Char) : Bool :=
  c == '\t' || (0x20 ≤ c.toNat && c.toNat != 0x7F)

/-- The character of `count` hexadecimal digits at the front of a text, and what follows. -/
def readCode (count : Nat) (cs : List Char) : Option (Char × List Char) := do
  let digits ← (cs.take count).mapM Json.hexValue?
  let n := digits.foldl (fun n d => n * 16 + d) 0
  if digits.length = count ∧ n.isValidChar then some (Char.ofNat n, cs.drop count) else none

/-- An escape after its backslash. -/
def readEscape (cs : List Char) : Option (Char × List Char) :=
  match cs with
  | 'b' :: rest => some ('\x08', rest)
  | 't' :: rest => some ('\t', rest)
  | 'n' :: rest => some ('\n', rest)
  | 'f' :: rest => some ('\x0c', rest)
  | 'r' :: rest => some ('\r', rest)
  | '"' :: rest => some ('"', rest)
  | '\\' :: rest => some ('\\', rest)
  | 'u' :: rest => readCode 4 rest
  | 'U' :: rest => readCode 8 rest
  | _ => none

/-- A line break at the front of a text: what follows it. -/
def newline? : List Char → Option (List Char)
  | '\n' :: rest => some rest
  | '\r' :: '\n' :: rest => some rest
  | _ => none

/-- Is `c` a space or a tab? -/
def isGap (c : Char) : Bool :=
  c == ' ' || c == '\t'

/-- The text after the spaces and line breaks at its front. -/
def skipLines : List Char → List Char
  | [] => []
  | c :: rest =>
    if isGap c || c == '\n' || (c == '\r' && rest.head? == some '\n') then skipLines rest
    else c :: rest

/-- What ends a string over several lines: three quotes, of which up to two more in front belong
to the string.  Gives those, and the text after the string. -/
def closing? (quote : Char) (cs : List Char) : Option (List Char × List Char) :=
  let count := min (cs.takeWhile (· == quote)).length 5
  if 3 ≤ count then some (List.replicate (count - 3) quote, cs.drop count) else none

/-- The rest of a string between quotes on one line, and the text after it. -/
def readLine (quote : Char) (cs : List Char) : Option (List Char × List Char) :=
  match cs with
  | [] => none
  | c :: rest =>
    if c = quote then some ([], rest)
    else if c = '\\' ∧ quote = '"' then do
      let (d, more) ← readEscape rest
      if more.length ≤ rest.length then
        let (ds, after) ← readLine quote more
        return (d :: ds, after)
      else none
    else if isTextChar c then do
      let (ds, after) ← readLine quote rest
      return (c :: ds, after)
    else none
termination_by cs.length

/-- The rest of a string between tripled quotes, and the text after it. -/
def readLines (quote : Char) (cs : List Char) : Option (List Char × List Char) :=
  match closing? quote cs with
  | some found => some found
  | none =>
    match cs with
    | [] => none
    | c :: rest =>
      if c = '\\' ∧ quote = '"' then
        match newline? (rest.dropWhile isGap) with
        | some next =>
          if (skipLines next).length ≤ rest.length then readLines quote (skipLines next) else none
        | none => do
          let (d, more) ← readEscape rest
          if more.length ≤ rest.length then
            let (ds, after) ← readLines quote more
            return (d :: ds, after)
          else none
      else if isTextChar c ∨ c = '\n' ∨ (c = '\r' ∧ rest.head? = some '\n') then do
        let (ds, after) ← readLines quote rest
        return (c :: ds, after)
      else none
termination_by cs.length

/-- A string after its first quote. -/
def readString (quote : Char) (cs : List Char) : Option (String × List Char) := do
  let (s, rest) ← match cs with
    | a :: b :: more =>
      if a = quote ∧ b = quote then readLines quote ((newline? more).getD more)
      else readLine quote cs
    | _ => readLine quote cs
  return (String.ofList s, rest)

end ScimQuery.Toml
