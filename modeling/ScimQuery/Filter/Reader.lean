import ScimQuery.Filter.Level

/-!
# Filter — Reader

Reading a filter phrase by phrase.  A value filter suspends the filter around it, which goes on
when the value filter is closed; so the state of reading is the current level and the suspended
ones.  Every phrase has a character, hence reading ends.
-/

namespace ScimQuery

open Text (Cursor)

/-- The state of reading a filter. -/
structure Reading where
  /-- The filter that is being read. -/
  level : Level
  /-- The filters around it, innermost first, each with the path that it narrows. -/
  outer : List (Path × Level) := []

/-- What a phrase leads to. -/
inductive Progress where
  /-- Reading goes on. -/
  | more (r : Reading)
  /-- The brackets around the whole filter are closed. -/
  | done (f : Filter)

namespace Reading

/-- Opens the value filter of a path, if the limit allows one more. -/
def openValue (r : Reading) (limits : Limits) (path : Path) (position : Nat) :
    Except Error Reading :=
  if limits.maxDepth ≤ r.level.nesting then .error (.nestingTooDeep limits.maxDepth)
  else
    .ok ⟨{ bracket := some position, depth := r.level.nesting + 1 }, (path, r.level) :: r.outer⟩

/-- Closes the current value filter. -/
def closeValue (r : Reading) : Except Error Progress := do
  let f ← r.level.finish
  match r.outer with
  | [] => return .done f
  | (path, level) :: outer => return .more ⟨level.push (.complex path f), outer⟩

/-- Takes in a phrase. -/
def step (limits : Limits) (r : Reading) : Phrase → Except Error Progress
  | .operand f => .ok (.more { r with level := r.level.push f })
  | .openGroup negated => do
    return .more { r with level := ← r.level.openGroup limits negated }
  | .closeGroup position => do return .more { r with level := ← r.level.closeGroup position }
  | .join j => do return .more { r with level := ← r.level.join j }
  | .openValue path position => do return .more (← r.openValue limits path position)
  | .closeValue => r.closeValue

/-- The filter that has been read, at the end of the text. -/
def finish (r : Reading) : Except Error Filter :=
  match r.level.bracket with
  | some position => .error (.unclosedBracket position)
  | none => r.level.finish

/-- Reads on from a place: the filter, and the place after it. -/
def run (limits : Limits) (r : Reading) (c : Cursor) : Except Error (Filter × Cursor) :=
  match h : Phrase.read r.level.region r.level.operandDue c with
  | .error e => .error e
  | .ok none =>
    match r.finish with
    | .error e => .error e
    | .ok f => .ok (f, ⟨c.position + c.rest.length, []⟩)
  | .ok (some (phrase, next)) =>
    have _ := Phrase.read_length h
    match r.step limits phrase with
    | .error e => .error e
    | .ok (.done f) => .ok (f, next)
    | .ok (.more r') => r'.run limits next
termination_by c.rest.length

theorem run_length {limits : Limits} {r : Reading} {c after : Cursor} {f : Filter}
    (h : r.run limits c = .ok (f, after)) : after.rest.length ≤ c.rest.length := by
  fun_induction run limits r c with
  | case1 => cases h
  | case2 => cases h
  | case3 => cases h; simp
  | case4 => cases h
  | case5 _ _ _ _ hread _ _ hstep => cases h; exact Nat.le_of_lt (Phrase.read_length hread)
  | case6 _ _ _ _ hread _ _ hstep ih =>
    exact Nat.le_trans (ih h) (Nat.le_of_lt (Phrase.read_length hread))

end Reading

/-- Reads the filter that takes up the rest of a text. -/
def Filter.read (limits : Limits) (c : Cursor) : Except Error (Filter × Cursor) :=
  Reading.run limits ⟨{ bracket := none, depth := 0 }, []⟩ c

/-- Reads a value filter after its opening bracket, up to its closing one.  `opened` is where
the path before the bracket starts. -/
def Filter.readWithin (limits : Limits) : Path.Within := fun opened c =>
  if limits.maxDepth = 0 then .error (.nestingTooDeep limits.maxDepth)
  else
    match h : Reading.run limits ⟨{ bracket := some opened, depth := 1 }, []⟩ c with
    | .error e => .error e
    | .ok (f, next) => .ok (f, ⟨next, Reading.run_length h⟩)

end ScimQuery
