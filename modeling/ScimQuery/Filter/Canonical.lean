import ScimQuery.Filter.Basic

/-!
# Filter — Canonical text

The text in which a filter or a path is written: keywords in lower case, single spaces, a pair
of parentheses around every `and` and `or`, none around anything else.

A text is written in front of what follows it, so that the time taken is proportional to its
length at any depth of nesting.  What follows does not matter to the text:

* `Filter.write_eq`, `Path.write_eq`: writing in front of `rest` is writing, then `rest`.
* `Filter.chars_and` and the like: the text of a filter or path, from the texts of its parts.
-/

namespace ScimQuery

mutual

/-- The canonical text of a filter, in front of `rest`. -/
def Filter.write : Filter → List Char → List Char
  | .compare op path value, rest =>
    path.write (' ' :: (op.keyword.toList ++ ' ' :: (value.chars ++ rest)))
  | .present path, rest => path.write (' ' :: (Operator.presentKeyword.toList ++ rest))
  | .and operands, rest => '(' :: Filter.writeJoined .and operands (')' :: rest)
  | .or operands, rest => '(' :: Filter.writeJoined .or operands (')' :: rest)
  | .not operand, rest => "not(".toList ++ operand.write (')' :: rest)
  | .complex path filter, rest => path.write ('[' :: filter.write (']' :: rest))

/-- The texts of some filters, with the keyword of a junction between them, in front of
`rest`. -/
def Filter.writeJoined (j : Junction) : List Filter → List Char → List Char
  | [], rest => rest
  | [f], rest => f.write rest
  | f :: g :: more, rest =>
    f.write (' ' :: (j.keyword.toList ++ ' ' :: Filter.writeJoined j (g :: more) rest))

/-- The canonical text of a path, in front of `rest`: the schema and a colon, then the
attributes with dots between them, each followed by its filter in brackets. -/
def Path.write : Path → List Char → List Char
  | .root none, rest => rest
  | .root (some urn), rest => urn.toList ++ ':' :: rest
  | .sub parent name, rest => parent.writeStem (name.toList ++ rest)
  | .subWhere parent name filter, rest =>
    parent.writeStem (name.toList ++ '[' :: filter.write (']' :: rest))

/-- The text of a path, up to where the name of a further attribute starts, in front of
`rest`. -/
def Path.writeStem : Path → List Char → List Char
  | .root none, rest => rest
  | .root (some urn), rest => urn.toList ++ ':' :: rest
  | .sub parent name, rest => parent.writeStem (name.toList ++ '.' :: rest)
  | .subWhere parent name filter, rest =>
    parent.writeStem (name.toList ++ '[' :: filter.write (']' :: '.' :: rest))

end

/-- The canonical text of a filter. -/
def Filter.chars (f : Filter) : List Char :=
  f.write []

/-- The texts of some filters, with the keyword of a junction between them. -/
def Filter.joinedChars (j : Junction) (fs : List Filter) : List Char :=
  Filter.writeJoined j fs []

/-- The canonical text of a path. -/
def Path.chars (p : Path) : List Char :=
  p.write []

/-- The text of a path, up to where the name of a further attribute starts. -/
def Path.stem (p : Path) : List Char :=
  p.writeStem []

/-! ### What follows a text -/

mutual

theorem Filter.write_append : ∀ (f : Filter) (a b : List Char), f.write (a ++ b) = f.write a ++ b
  | .compare _ path _, a, b => by
    simp only [Filter.write, List.append_assoc, List.cons_append, ← Path.write_append path]
  | .present path, a, b => by
    simp only [Filter.write, List.append_assoc, List.cons_append, ← Path.write_append path]
  | .and operands, a, b => by
    simp only [Filter.write, List.cons_append, ← Filter.writeJoined_append _ operands]
  | .or operands, a, b => by
    simp only [Filter.write, List.cons_append, ← Filter.writeJoined_append _ operands]
  | .not operand, a, b => by
    simp only [Filter.write, List.append_assoc, List.cons_append, ← Filter.write_append operand]
  | .complex path filter, a, b => by
    simp only [Filter.write, List.cons_append, ← Path.write_append path,
      ← Filter.write_append filter]

theorem Filter.writeJoined_append (j : Junction) : ∀ (fs : List Filter) (a b : List Char),
    Filter.writeJoined j fs (a ++ b) = Filter.writeJoined j fs a ++ b
  | [], _, _ => rfl
  | [f], a, b => Filter.write_append f a b
  | f :: g :: more, a, b => by
    simp only [Filter.writeJoined, List.append_assoc, List.cons_append,
      ← Filter.write_append f, ← Filter.writeJoined_append j (g :: more)]

theorem Path.write_append : ∀ (p : Path) (a b : List Char), p.write (a ++ b) = p.write a ++ b
  | .root none, _, _ => rfl
  | .root (some _), _, _ => by simp only [Path.write, List.append_assoc, List.cons_append]
  | .sub parent _, a, b => by
    simp only [Path.write, List.append_assoc, ← Path.writeStem_append parent]
  | .subWhere parent _ filter, a, b => by
    simp only [Path.write, List.append_assoc, List.cons_append, ← Path.writeStem_append parent,
      ← Filter.write_append filter]

theorem Path.writeStem_append : ∀ (p : Path) (a b : List Char),
    p.writeStem (a ++ b) = p.writeStem a ++ b
  | .root none, _, _ => rfl
  | .root (some _), _, _ => by simp only [Path.writeStem, List.append_assoc, List.cons_append]
  | .sub parent _, a, b => by
    simp only [Path.writeStem, List.append_assoc, List.cons_append,
      ← Path.writeStem_append parent]
  | .subWhere parent _ filter, a, b => by
    simp only [Path.writeStem, List.append_assoc, List.cons_append,
      ← Path.writeStem_append parent, ← Filter.write_append filter]

end

theorem Filter.write_eq (f : Filter) (rest : List Char) : f.write rest = f.chars ++ rest :=
  f.write_append [] rest

theorem Filter.writeJoined_eq (j : Junction) (fs : List Filter) (rest : List Char) :
    Filter.writeJoined j fs rest = Filter.joinedChars j fs ++ rest :=
  Filter.writeJoined_append j fs [] rest

theorem Path.write_eq (p : Path) (rest : List Char) : p.write rest = p.chars ++ rest :=
  p.write_append [] rest

theorem Path.writeStem_eq (p : Path) (rest : List Char) : p.writeStem rest = p.stem ++ rest :=
  p.writeStem_append [] rest

/-! ### Texts from the texts of the parts -/

theorem Filter.chars_compare (op : Operator) (p : Path) (v : Value) :
    (Filter.compare op p v).chars =
      p.chars ++ ' ' :: (op.keyword.toList ++ ' ' :: v.chars) := by
  simp [Filter.chars, Filter.write, Path.write_eq]

theorem Filter.chars_present (p : Path) :
    (Filter.present p).chars = p.chars ++ ' ' :: Operator.presentKeyword.toList := by
  simp [Filter.chars, Filter.write, Path.write_eq]

theorem Filter.chars_and (fs : List Filter) :
    (Filter.and fs).chars = '(' :: (Filter.joinedChars .and fs ++ [')']) := by
  simp [Filter.chars, Filter.write, Filter.writeJoined_eq]

theorem Filter.chars_or (fs : List Filter) :
    (Filter.or fs).chars = '(' :: (Filter.joinedChars .or fs ++ [')']) := by
  simp [Filter.chars, Filter.write, Filter.writeJoined_eq]

theorem Filter.chars_not (f : Filter) :
    (Filter.not f).chars = "not(".toList ++ f.chars ++ [')'] := by
  simp only [Filter.chars, Filter.write]
  rw [Filter.write_eq, List.append_assoc]
  rfl

theorem Filter.chars_complex (p : Path) (f : Filter) :
    (Filter.complex p f).chars = p.chars ++ '[' :: (f.chars ++ [']']) := by
  simp only [Filter.chars, Filter.write]
  rw [Path.write_eq, Filter.write_eq]
  rfl

theorem Filter.joinedChars_cons_cons (j : Junction) (f g : Filter) (more : List Filter) :
    Filter.joinedChars j (f :: g :: more) =
      f.chars ++ ' ' :: (j.keyword.toList ++ ' ' :: Filter.joinedChars j (g :: more)) := by
  simp only [Filter.joinedChars, Filter.writeJoined, Filter.write_eq f]

theorem Path.chars_sub (p : Path) (name : String) :
    (Path.sub p name).chars = p.stem ++ name.toList := by
  simp [Path.chars, Path.write, Path.writeStem_eq]

theorem Path.chars_subWhere (p : Path) (name : String) (f : Filter) :
    (Path.subWhere p name f).chars = p.stem ++ (name.toList ++ '[' :: (f.chars ++ [']'])) := by
  simp only [Path.chars, Path.write, Path.writeStem_eq, Filter.write_eq]

theorem Path.stem_sub (p : Path) (name : String) :
    (Path.sub p name).stem = p.stem ++ (name.toList ++ ['.']) := by
  simp only [Path.stem, Path.writeStem]
  rw [Path.writeStem_eq]
  rfl

theorem Path.stem_subWhere (p : Path) (name : String) (f : Filter) :
    (Path.subWhere p name f).stem =
      p.stem ++ (name.toList ++ '[' :: (f.chars ++ [']', '.'])) := by
  simp only [Path.stem, Path.writeStem]
  rw [Path.writeStem_eq, Filter.write_eq]
  rfl

/-! ### Strings -/

/-- The canonical text of a filter. -/
def Filter.text (f : Filter) : String :=
  String.ofList f.chars

/-- The canonical text of a path. -/
def Path.text (p : Path) : String :=
  String.ofList p.chars

/-- The text of an attribute of a path and of the filter that narrows it. -/
def Path.elementText : String × Option Filter → String
  | (name, none) => name
  | (name, some filter) => name ++ "[" ++ filter.text ++ "]"

/-- The text of the last attribute of a path, if it has one. -/
def Path.lastText? (p : Path) : Option String :=
  p.elements.getLast?.map Path.elementText

end ScimQuery
