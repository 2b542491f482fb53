import ScimQuery.Filter.Equality
import ScimQuery.Parse
import ScimQuery.View.Caret
import ScimQuery.View.Tree

/-!
# Command — Style

How the command writes its results and its failures: as plain text, as trees or as JSON, with
colours or without.
-/

namespace ScimQuery.Command

/-- The choices for output. -/
structure Style where
  /-- Everything is written as JSON. -/
  json : Bool := false
  /-- Results are shown as trees. -/
  tree : Bool := false
  /-- Keywords of trees and carets are coloured. -/
  colours : Bool := false
  deriving Repr, DecidableEq

namespace Style

/-- A filter in a style. -/
def filter (style : Style) (f : Filter) : String :=
  if style.json then
    (Json.ofMembers [("filter", .string f.text), ("tree", f.toJson)]).compact
  else if style.tree then f.tree style.colours
  else f.text

/-- A path in a style. -/
def path (style : Style) (p : Path) : String :=
  if style.json then
    (Json.ofMembers [("path", .string p.text), ("tree", p.toJson)]).compact
  else if style.tree then p.tree style.colours
  else p.text

/-- The comparison of two filters in a style. -/
def comparison (style : Style) (left right : Filter) : String :=
  if style.json then
    (Json.ofMembers [("equal", .bool (left.same right)), ("left", .string left.text),
      ("right", .string right.text)]).compact
  else if left.same right then "equivalent"
  else "different:\n  " ++ left.text ++ "\n  " ++ right.text

end Style

/-- Why a file or the standard input cannot be read. -/
inductive ReadFault where
  | notFound
  | notDirectory
  | isDirectory
  | nameTooLong
  | notText
  | other (message : String)
  deriving Repr, DecidableEq

/-- The wording of a fault. -/
def ReadFault.message : ReadFault → String
  | .notFound => "No such file or directory (os error 2)"
  | .notDirectory => "Not a directory (os error 20)"
  | .isDirectory => "Is a directory (os error 21)"
  | .nameTooLong => "File name too long (os error 36)"
  | .notText => "stream did not contain valid UTF-8"
  | .other message => message

/-- Does the fault mean that no file has the name? -/
def ReadFault.isAbsence : ReadFault → Bool
  | .notFound => true
  | .notDirectory => true
  | .nameTooLong => true
  | _ => false

/-- A failure of the command. -/
inductive Failure where
  /-- The text is refused as a filter or a path. -/
  | parse (text : String) (error : Error)
  /-- The configuration is refused. -/
  | config (message : String)
  /-- The standard input cannot be read. -/
  | input (fault : ReadFault)
  deriving Repr, DecidableEq

namespace Failure

/-- The wording of a failure. -/
def message : Failure → String
  | .parse _ error => "parse error: " ++ error.message
  | .config message => "configuration error: " ++ message
  | .input fault => "I/O error: " ++ fault.message

/-- The code of a failure in JSON. -/
def code : Failure → String
  | .parse _ _ => "PARSE_ERROR"
  | .config _ => "CONFIG_ERROR"
  | .input _ => "IO_ERROR"

/-- The exit status of a failure. -/
def status : Failure → Nat
  | .parse _ _ => 1
  | .config _ => 5
  | .input _ => 3

/-- The place of a failure in JSON, for a text that is refused. -/
def position : Failure → List (String × Json)
  | .parse text error =>
    [("position", View.orNull (fun (n : Nat) => Json.ofInt n) (error.caret? text.toList))]
  | _ => []

/-- The text and the caret below it, for a text that is refused at some place. -/
def snippet (style : Style) : Failure → String
  | .parse text error =>
    match error.snippet? style.colours text.toList with
    | some snippet => snippet ++ "\n"
    | none => ""
  | _ => ""

/-- The report of a failure. -/
def report (style : Style) (f : Failure) : String :=
  if style.json then
    let members := [("code", Json.string f.code), ("message", .string f.message)] ++ f.position
    (Json.ofMembers [("error", .ofMembers members)]).pretty ++ "\n"
  else "Error: " ++ f.message ++ "\n" ++ f.snippet style

end Failure

end ScimQuery.Command
