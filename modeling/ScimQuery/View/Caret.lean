import ScimQuery.Error
import ScimQuery.Text.Classes

/-!
# View — Colours and the caret

Bold coloured text for a terminal, and a caret under the place of a refused text that an error
points at.  An error inside an attribute path counts from the start of the path, so that the
place of the path is added; an end that comes too early is shown just after the text, without the
blanks at its end.
-/

namespace ScimQuery

/-! ### Colours -/

namespace View

/-- A colour of a terminal. -/
inductive Colour where
  | red
  | cyan
  deriving Repr, DecidableEq

/-- The number of a colour in a terminal's escape sequences. -/
def Colour.code : Colour → String
  | .red => "31"
  | .cyan => "36"

/-- An escape sequence of a terminal. -/
def escape (code : String) : List Char :=
  '\x1b' :: '[' :: (code.toList ++ ['m'])

/-- The text in bold and in a colour, or as it is if colours are off. -/
def paint (colours : Bool) (colour : Colour) (text : List Char) : List Char :=
  if colours then escape "1" ++ escape colour.code ++ text ++ escape "39" ++ escape "0" else text

end View

/-! ### The caret -/

/-- The place under which the caret stands, if the error has one. -/
def Error.caret? (text : List Char) : Error → Option Nat
  | .invalidAttributePath position source => some (position + source.position?.getD 0)
  | .unexpectedEndOfFilter => some (Text.trimEnd text).length
  | .unexpectedEndOfPath => some (Text.trimEnd text).length
  | e => e.position?

/-- The text and, on a line below it, the caret. -/
def Error.snippet? (colours : Bool) (text : List Char) (e : Error) : Option String :=
  (e.caret? text).map fun offset =>
    String.ofList (' ' :: ' ' :: (text ++
      '\n' :: ' ' :: ' ' :: (List.replicate offset ' ' ++ View.paint colours .red ['^'])))

end ScimQuery
