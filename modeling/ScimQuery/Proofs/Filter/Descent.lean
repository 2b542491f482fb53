import ScimQuery.Parse
import ScimQuery.Proofs.Filter.Folds

/-!
# Filter — recursive descent

The grammar of filters, read by one function for each of its rules, over the same tokens, paths
and comparison values as `Filter.read` but without any stack:

* a disjunction is conjunctions with `or` between them, a conjunction is terms with `and`
  between them (`sequence`);
* a term is a filter in parentheses, with or without `not` in front of it, a path with a value
  filter in brackets, or a condition (`term`, `enclosed`, `condition`).

A sequence of one item is that item, one of more items is a single filter of all of them in
their order.  A filter in parentheses is one item of the sequence around it, whatever it is.

Readers give no reason where they fail.  Each gives the place after what it has read, which is
not before the place it was given.
-/

namespace ScimQuery.Descent

open Text (Cursor isKeyword)

/-- A place that is not before `c`. -/
abbrev From (c : Cursor) := { d : Cursor // d.rest.length ≤ c.rest.length }

/-- A place after `c`. -/
abbrev After (c : Cursor) := { d : Cursor // d.rest.length < c.rest.length }

/-- The token at a place, which is `none` at the end of the text. -/
def token (region : Region) (c : Cursor) : Option (Option (Token × After c)) :=
  match h : Token.read region c with
  | .error _ => none
  | .ok none => some none
  | .ok (some l) => some (some (l.token, ⟨l.next, Token.read_length h⟩))

/-- The path that a word names. -/
def path (word : List Char) : Option Path :=
  if word.isEmpty then none else (Path.ofWord word).toOption

/-- A comparison value. -/
def value (c : Cursor) : Option (Value × From c) :=
  match Literal.scan c.rest with
  | .ok (some literal) => some (literal.value, ⟨c.skip literal.length, c.length_skip_le _⟩)
  | _ => none

/-- A condition on the attribute that `word` names: after `word`, either `pr`, or an operator and
a comparison value. -/
def condition (region : Region) (word : List Char) (c : Cursor) : Option (Filter × From c) :=
  match path word, token region c with
  | some p, some (some (.word op, ⟨next, hnext⟩)) =>
    if isKeyword op Operator.presentKeyword then some (.present p, ⟨next, Nat.le_of_lt hnext⟩)
    else
      match Operator.ofKeyword? op, value next with
      | some operator, some (v, ⟨after, hafter⟩) =>
        some (.compare operator p v, ⟨after, Nat.le_of_lt (Nat.lt_of_le_of_lt hafter hnext)⟩)
      | _, _ => none
  | _, _ => none

mutual

/-- Items with a junction between them: conjunctions with `or`, or terms with `and`.  `depth` is
the number of groups and value filters around them. -/
def sequence (limits : Limits) (region : Region) (depth : Nat) (j : Junction) (c : Cursor) :
    Option (Filter × From c) :=
  match item limits region depth j c with
  | none => none
  | some (f, ⟨d, hd⟩) =>
    match more limits region depth j d with
    | none => none
    | some (fs, ⟨e, he⟩) => some (.joined j (f :: fs), ⟨e, Nat.le_trans he hd⟩)
termination_by (c.rest.length, match j with | .or => 5 | .and => 3)
decreasing_by
  · cases j <;> decreasing_tactic
  · exact Prod.Lex.right' _ hd (by cases j <;> decide)

/-- An item of a sequence. -/
def item (limits : Limits) (region : Region) (depth : Nat) (j : Junction) (c : Cursor) :
    Option (Filter × From c) :=
  match j with
  | .or => sequence limits region depth .and c
  | .and => term limits region depth c
termination_by (c.rest.length, match j with | .or => 4 | .and => 2)

/-- The items of a sequence after its first, each behind the keyword of the junction. -/
def more (limits : Limits) (region : Region) (depth : Nat) (j : Junction) (c : Cursor) :
    Option (List Filter × From c) :=
  match token region c with
  | none => none
  | some (some (.word w, ⟨next, hnext⟩)) =>
    if isKeyword w j.keyword then
      match item limits region depth j next with
      | none => none
      | some (f, ⟨d, hd⟩) =>
        match more limits region depth j d with
        | none => none
        | some (fs, ⟨e, he⟩) =>
          some (f :: fs, ⟨e, Nat.le_of_lt (Nat.lt_of_le_of_lt (Nat.le_trans he hd) hnext)⟩)
    else some ([], ⟨c, Nat.le_refl _⟩)
  | some _ => some ([], ⟨c, Nat.le_refl _⟩)
termination_by (c.rest.length, 0)

/-- An item of a conjunction. -/
def term (limits : Limits) (region : Region) (depth : Nat) (c : Cursor) :
    Option (Filter × From c) :=
  match token region c with
  | some (some (.openParen, ⟨next, hnext⟩)) =>
    match enclosed limits region .closeParen depth next with
    | none => none
    | some (f, ⟨d, hd⟩) => some (f, ⟨d, Nat.le_of_lt (Nat.lt_of_le_of_lt hd hnext)⟩)
  | some (some (.word w, ⟨next, hnext⟩)) =>
    if isKeyword w "not" then
      match token region next with
      | some (some (.openParen, ⟨inner, hinner⟩)) =>
        match enclosed limits region .closeParen depth inner with
        | none => none
        | some (f, ⟨d, hd⟩) =>
          some (.not f,
            ⟨d, Nat.le_of_lt (Nat.lt_of_le_of_lt hd (Nat.lt_trans hinner hnext))⟩)
      | _ => none
    else
      match condition region w next with
      | none => none
      | some (f, ⟨d, hd⟩) => some (f, ⟨d, Nat.le_of_lt (Nat.lt_of_le_of_lt hd hnext)⟩)
  | some (some (.valuePath w, ⟨next, hnext⟩)) =>
    match path w, enclosed limits .valueFilter .closeBracket depth next with
    | some p, some (f, ⟨d, hd⟩) =>
      some (.complex p f, ⟨d, Nat.le_of_lt (Nat.lt_of_le_of_lt hd hnext)⟩)
    | _, _ => none
  | _ => none
termination_by (c.rest.length, 1)

/-- A filter after its opening parenthesis or bracket, and what closes it. -/
def enclosed (limits : Limits) (region : Region) (close : Token) (depth : Nat) (c : Cursor) :
    Option (Filter × From c) :=
  if limits.maxDepth ≤ depth then none
  else
    match sequence limits region (depth + 1) .or c with
    | none => none
    | some (f, ⟨d, hd⟩) =>
      match token region d with
      | some (some (t, ⟨e, he⟩)) =>
        if t = close then some (f, ⟨e, Nat.le_of_lt (Nat.lt_of_lt_of_le he hd)⟩) else none
      | _ => none
termination_by (c.rest.length, 6)

end

/-- The filter that a whole text spells. -/
def parse (limits : Limits) (text : String) : Option Filter :=
  match openText limits text.toList with
  | .error _ => none
  | .ok c =>
    match sequence limits .filter 0 .or c with
    | none => none
    | some (f, ⟨d, _⟩) =>
      match token .filter d with
      | some none => some f
      | _ => none

end ScimQuery.Descent
