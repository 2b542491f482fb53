import ScimQuery.Filter.Reader
import ScimQuery.Text.Classes

/-!
# Parse

Reading filters and paths from whole texts.  Blanks around the text do not count, except that
places are counted from the start of the text as it was given, and that a limit on its length
counts them too.
-/

namespace ScimQuery

open Text (Cursor)

/-- The first place of a text that is not a blank, in the text without the blanks at its end. -/
def openText (limits : Limits) (text : List Char) : Except Error Cursor :=
  let start := (Cursor.start (Text.trimEnd text)).skipWhile Text.isBlank
  match limits.maxLength with
  | none => .ok start
  | some max => if max < text.length then .error (.inputTooLong text.length max) else .ok start

/-- The filter that a text spells. -/
def parseFilterChars (limits : Limits) (text : List Char) : Except Error Filter := do
  let (f, _) ← Filter.read limits (← openText limits text)
  return f

/-- The path that a text spells.  An empty text spells the root. -/
def parsePathChars (limits : Limits) (text : List Char) : Except Error Path := do
  let (p, _) ← Path.readFrom (Filter.readWithin limits) none false (← openText limits text)
  return p

/-- The filter that a text spells. -/
def parseFilter (limits : Limits) (text : String) : Except Error Filter :=
  parseFilterChars limits text.toList

/-- The path that a text spells.  An empty text spells the root. -/
def parsePath (limits : Limits) (text : String) : Except Error Path :=
  parsePathChars limits text.toList

end ScimQuery
