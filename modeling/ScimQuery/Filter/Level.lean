import ScimQuery.Error
import ScimQuery.Filter.Phrase

/-!
# Filter — Level

The reading of one filter, up to the end of the text or of the brackets around it, with a stack
of operands and a stack of marks: the junctions and groups that are still open.

`and` binds tighter than `or`.  A run of equal junctions becomes one filter of all its
operands: an `or` first folds the run of `and` before it (`foldAnds`), and the end of a group
or of the filter folds all runs back to the opening of the group (`foldRuns`).  A group is never
merged into the filter around it.
-/

namespace ScimQuery

/-- An entry of the stack of marks. -/
inductive Mark where
  /-- An open group, `not` in front of it or not. -/
  | group (negated : Bool)
  /-- A junction whose right operand may still grow. -/
  | join (j : Junction)
  deriving Repr, DecidableEq

/-- The state of reading one filter. -/
structure Level where
  /-- Where the path of this value filter starts; `none` for a filter by itself. -/
  bracket : Option Nat
  /-- The number of groups and value filters open around this filter, its own brackets
  included. -/
  depth : Nat
  /-- The number of groups open in this filter. -/
  openGroups : Nat := 0
  /-- The operands read so far, the latest first. -/
  operands : List Filter := []
  /-- The marks still open, the latest first. -/
  marks : List Mark := []
  /-- Is an operand due next? -/
  operandDue : Bool := true

namespace Level

/-- Where the tokens of this filter stand. -/
def region (l : Level) : Region :=
  if l.bracket.isSome then .valueFilter else .filter

/-- The number of groups and value filters open. -/
def nesting (l : Level) : Nat :=
  l.depth + l.openGroups

/-- Takes in an operand. -/
def push (l : Level) (f : Filter) : Level :=
  { l with operands := f :: l.operands, operandDue := false }

/-- Takes the latest operand off the stack. -/
def pop : List Filter → Except Error (Filter × List Filter)
  | [] => .error .unexpectedEndOfFilter
  | f :: fs => .ok (f, fs)

/-- Folds a run into one operand.  `members` are its operands but the first, which is still on
the stack. -/
def foldRun (j : Junction) (members : List Filter) (operands : List Filter) :
    Except Error (List Filter) := do
  let (first, rest) ← pop operands
  let joined ← Filter.joinAll j (first :: members)
  return joined :: rest

/-- Folds the run of `and` on top of the marks; `members` are its operands met so far. -/
def foldAnds (members : List Filter) :
    List Mark → List Filter → Except Error (List Mark × List Filter)
  | .join .and :: marks, operands => do
    let (f, rest) ← pop operands
    foldAnds (f :: members) marks rest
  | marks, operands =>
    if members.isEmpty then .ok (marks, operands)
    else do return (marks, ← foldRun .and members operands)

/-- A run that is being folded: its junction, and its operands met so far. -/
abbrev Run := Option (Junction × List Filter)

/-- Ends a run. -/
def endRun (run : Run) (operands : List Filter) : Except Error (List Filter) :=
  match run with
  | none => .ok operands
  | some (j, members) => foldRun j members operands

/-- Folds all runs back to the opening of the innermost group.  Gives whether that group has a
`not` in front of it, or `none` if no group is open, and what is left on the stacks. -/
def foldRuns (run : Run) :
    List Mark → List Filter → Except Error (Option Bool × List Mark × List Filter)
  | [], operands => do return (none, [], ← endRun run operands)
  | .group negated :: marks, operands => do
    return (some negated, marks, ← endRun run operands)
  | .join j :: marks, operands =>
    match run with
    | some (k, members) =>
      if j = k then do
        let (f, rest) ← pop operands
        foldRuns (some (j, f :: members)) marks rest
      else do
        let (f, rest) ← pop (← foldRun k members operands)
        foldRuns (some (j, [f])) marks rest
    | none => do
      let (f, rest) ← pop operands
      foldRuns (some (j, [f])) marks rest

/-- Opens a group, if the limit allows one more. -/
def openGroup (l : Level) (limits : Limits) (negated : Bool) : Except Error Level :=
  if limits.maxDepth ≤ l.nesting then .error (.nestingTooDeep limits.maxDepth)
  else .ok { l with openGroups := l.openGroups + 1, marks := .group negated :: l.marks }

/-- Closes the innermost group. -/
def closeGroup (l : Level) (position : Nat) : Except Error Level := do
  let (group, marks, operands) ← foldRuns none l.marks l.operands
  match group with
  | none => .error (.unmatchedCloseParen position)
  | some false => return { l with openGroups := l.openGroups - 1, marks, operands }
  | some true =>
    let (f, rest) ← pop operands
    return { l with openGroups := l.openGroups - 1, marks, operands := .not f :: rest }

/-- Takes in a junction. -/
def join (l : Level) : Junction → Except Error Level
  | .and => .ok { l with marks := .join .and :: l.marks, operandDue := true }
  | .or => do
    let (marks, operands) ← foldAnds [] l.marks l.operands
    return { l with marks := .join .or :: marks, operands, operandDue := true }

/-- The filter that has been read, where it ends. -/
def finish (l : Level) : Except Error Filter := do
  let (group, _, operands) ← foldRuns none l.marks l.operands
  if group.isSome then .error .unexpectedEndOfFilter
  else
    let (f, _) ← pop operands
    return f

end Level

end ScimQuery
