import ScimQuery.Filter.Canonical

/-!
# Filter — Nodes

The nodes of a filter in the order in which a walk meets them: a node before its operands, the
operands from left to right.  Filters inside the paths of a node are no nodes of the filter.
-/

namespace ScimQuery.Filter

mutual

/-- The nodes of a filter whose root is at depth `depth`, each with its depth. -/
def nodesAt (depth : Nat) : Filter → List (Nat × Filter)
  | .compare op path value => [(depth, .compare op path value)]
  | .present path => [(depth, .present path)]
  | .and operands => (depth, .and operands) :: nodesOf (depth + 1) operands
  | .or operands => (depth, .or operands) :: nodesOf (depth + 1) operands
  | .not operand => (depth, .not operand) :: operand.nodesAt (depth + 1)
  | .complex path filter => (depth, .complex path filter) :: filter.nodesAt (depth + 1)

/-- The nodes of some filters at depth `depth`. -/
def nodesOf (depth : Nat) : List Filter → List (Nat × Filter)
  | [] => []
  | f :: fs => f.nodesAt depth ++ nodesOf depth fs

end

/-- The nodes of a filter, each with its depth. -/
def nodes (f : Filter) : List (Nat × Filter) :=
  f.nodesAt 0

/-- What a log of a walk says of a node besides its kind: the attribute and value of a
comparison, the attribute of a test, the number of operands of a junction. -/
def detail : Filter → String
  | .compare _ path value => path.text ++ "|" ++ value.text
  | .present path => path.text
  | .and operands => toString operands.length
  | .or operands => toString operands.length
  | .not _ => ""
  | .complex path _ => path.text

/-- The nodes that a walk meets if it stops at the first node of kind `refused`: those up to
and including it, and whether there is one. -/
def nodesUntil (refused : String) (f : Filter) : List (Nat × Filter) × Option (Nat × Filter) :=
  let accepts (node : Nat × Filter) : Bool := node.2.kind != refused
  match f.nodes.dropWhile accepts with
  | [] => (f.nodes, none)
  | node :: _ => (f.nodes.takeWhile accepts ++ [node], some node)

end ScimQuery.Filter
