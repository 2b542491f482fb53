import ScimQuery.Filter.Nodes
import ScimQuery.View.Caret

/-!
# View — Tree

Filters and paths as trees: as indented text with one line for each node, and as JSON.
-/

namespace ScimQuery

namespace View

/-- A keyword of a tree. -/
def keyword (colours : Bool) (word : String) : List Char :=
  paint colours .cyan word.toList

/-- The line for a node, without its indentation. -/
def headline (colours : Bool) : Filter → List Char
  | .compare op path value =>
    path.chars ++ ' ' :: (keyword colours op.keyword ++ ' ' :: value.chars)
  | .present path => path.chars ++ ' ' :: keyword colours Operator.presentKeyword
  | .and _ => keyword colours Junction.and.keyword
  | .or _ => keyword colours Junction.or.keyword
  | .not _ => keyword colours "not"
  | .complex path _ => keyword colours "complex" ++ ' ' :: path.chars

/-- A line, two spaces in for each level of depth. -/
def indent (depth : Nat) (line : List Char) : List Char :=
  List.replicate (2 * depth) ' ' ++ line

/-- The lines of a filter whose root is at depth `depth`. -/
def filterLines (colours : Bool) (depth : Nat) (f : Filter) : List (List Char) :=
  (f.nodesAt depth).map (fun (d, node) => indent d (headline colours node))

/-- The lines of a path: its schema, then its attributes, each followed by its filter. -/
def pathLines (colours : Bool) (p : Path) : List (List Char) :=
  let schema := match p.urn with
    | some urn => [keyword colours "schema" ++ ' ' :: urn.toList]
    | none => []
  let element : String × Option Filter → List (List Char)
    | (name, none) => [name.toList]
    | (name, some f) => name.toList :: filterLines colours 1 f
  schema ++ p.elements.flatMap element

/-- Lines with line feeds between them. -/
def joinLines : List (List Char) → List Char
  | [] => []
  | [line] => line
  | line :: next :: more => line ++ '\n' :: joinLines (next :: more)

/-- The text of an object or of nothing. -/
def orNull {α : Type} (encode : α → Json) : Option α → Json
  | some a => encode a
  | none => .null

end View

/-- A filter as an indented tree, one node a line. -/
def Filter.tree (colours : Bool) (f : Filter) : String :=
  String.ofList (View.joinLines (View.filterLines colours 0 f))

/-- A path as an indented tree, one attribute a line. -/
def Path.tree (colours : Bool) (p : Path) : String :=
  String.ofList (View.joinLines (View.pathLines colours p))

mutual

/-- A filter as a JSON object of its kind and parts. -/
def Filter.toJson : Filter → Json
  | .compare op path value =>
    .ofMembers [("type", .string op.keyword), ("path", .string path.text), ("value", value.toJson)]
  | .present path =>
    .ofMembers [("type", .string Operator.presentKeyword), ("path", .string path.text)]
  | .and operands =>
    .ofMembers
      [("type", .string Junction.and.keyword), ("filters", .array (Filter.toJsons operands))]
  | .or operands =>
    .ofMembers
      [("type", .string Junction.or.keyword), ("filters", .array (Filter.toJsons operands))]
  | .not operand => .ofMembers [("type", .string "not"), ("filter", operand.toJson)]
  | .complex path filter =>
    .ofMembers [("type", .string "complex"), ("path", .string path.text), ("filter", filter.toJson)]

/-- Some filters as JSON objects. -/
def Filter.toJsons : List Filter → List Json
  | [] => []
  | f :: fs => f.toJson :: Filter.toJsons fs

end

/-- A path as a JSON object of its schema and its attributes. -/
def Path.toJson (p : Path) : Json :=
  let element : String × Option Filter → Json := fun (name, filter) =>
    .ofMembers [("attribute", .string name), ("filter", View.orNull Filter.toJson filter)]
  .ofMembers [
    ("schema", View.orNull .string p.urn),
    ("elements", .array (p.elements.map element))]

end ScimQuery
