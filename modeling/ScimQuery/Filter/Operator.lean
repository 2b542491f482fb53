import ScimQuery.Text.Compare

/-!
# Filter — Operator

The operators that compare an attribute with a value, and the suggestion for a word that is
none of them: the first keyword that differs from it by one inserted, deleted or substituted
character.
-/

namespace ScimQuery

/-- An operator between an attribute and a value. -/
inductive Operator where
  | eq | ne | co | sw | ew | gt | ge | lt | le
  deriving Repr, DecidableEq

namespace Operator

/-- The operators, in the order in which they are listed and suggested. -/
def all : List Operator :=
  [.eq, .ne, .co, .sw, .ew, .gt, .ge, .lt, .le]

/-- The keyword of an operator. -/
def keyword : Operator → String
  | .eq => "eq"
  | .ne => "ne"
  | .co => "co"
  | .sw => "sw"
  | .ew => "ew"
  | .gt => "gt"
  | .ge => "ge"
  | .lt => "lt"
  | .le => "le"

/-- The operator of a keyword, in any case. -/
def ofKeyword? (word : List Char) : Option Operator :=
  all.find? (fun op => Text.isKeyword word op.keyword)

/-- The keyword of the test that an attribute is present. -/
def presentKeyword : String := "pr"

/-- The keywords that may follow an attribute, in the order in which they are suggested. -/
def keywords : List String :=
  all.map keyword ++ [presentKeyword]

/-- The first keyword that is one edit away from `word`, whose case does not matter. -/
def suggest? (word : List Char) : Option String :=
  keywords.find? (fun keyword => Text.editDistance (Text.lower word) keyword.toList == 1)

end Operator

end ScimQuery
