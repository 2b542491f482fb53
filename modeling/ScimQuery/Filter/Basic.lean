import ScimQuery.Error
import ScimQuery.Filter.Operator
import ScimQuery.Value

/-!
# Filter

Filters and attribute paths.  A path starts at the root of a resource or of a schema extension
and goes down through attributes, each of which may be narrowed to the values that a filter
accepts; a filter in turn tests the attributes that paths lead to.  So the two types are
declared together.

`Filter.joinAll` joins filters and insists on two of them at least.
-/

namespace ScimQuery

mutual

/-- A condition on a resource. -/
inductive Filter where
  /-- The attribute compares with the value as the operator says. -/
  | compare (op : Operator) (path : Path) (value : Value)
  /-- The attribute has a value. -/
  | present (path : Path)
  /-- Every operand holds. -/
  | and (operands : List Filter)
  /-- Some operand holds. -/
  | or (operands : List Filter)
  /-- The operand does not hold. -/
  | not (operand : Filter)
  /-- Some value of the attribute satisfies the value filter. -/
  | complex (path : Path) (filter : Filter)

/-- The way to an attribute. -/
inductive Path where
  /-- The resource itself, or one of its schema extensions. -/
  | root (urn : Option String)
  /-- An attribute of what `parent` leads to. -/
  | sub (parent : Path) (name : String)
  /-- An attribute of what `parent` leads to, narrowed to some of its values. -/
  | subWhere (parent : Path) (name : String) (filter : Filter)

end

/-- How two filters are joined. -/
inductive Junction where
  | and
  | or
  deriving Repr, DecidableEq

/-- The keyword of a junction. -/
def Junction.keyword : Junction → String
  | .and => "and"
  | .or => "or"

namespace Path

/-- The root of a resource. -/
def resource : Path := .root none

/-- The root of a schema extension. -/
def extension (urn : String) : Path := .root (some urn)

/-- An attribute of a resource. -/
def coreAttribute (name : String) : Path := resource.sub name

/-- An attribute of a schema extension. -/
def extensionAttribute (urn name : String) : Path := (extension urn).sub name

/-- The schema of the path, if it starts at an extension. -/
def urn : Path → Option String
  | .root urn => urn
  | .sub parent _ => parent.urn
  | .subWhere parent _ _ => parent.urn

/-- The number of attributes on the path. -/
def length : Path → Nat
  | .root _ => 0
  | .sub parent _ => parent.length + 1
  | .subWhere parent _ _ => parent.length + 1

/-- Does the path name no attribute? -/
def isRoot : Path → Bool
  | .root _ => true
  | _ => false

/-- The attributes on the path, from the root on, with the filters that narrow them, in front
of `rest`. -/
def elementsBefore : Path → List (String × Option Filter) → List (String × Option Filter)
  | .root _, rest => rest
  | .sub parent name, rest => parent.elementsBefore ((name, none) :: rest)
  | .subWhere parent name filter, rest => parent.elementsBefore ((name, some filter) :: rest)

/-- The attributes on the path, from the root on, with the filters that narrow them. -/
def elements (p : Path) : List (String × Option Filter) :=
  p.elementsBefore []

theorem elementsBefore_append : ∀ (p : Path) (a b : List (String × Option Filter)),
    p.elementsBefore (a ++ b) = p.elementsBefore a ++ b
  | .root _, _, _ => rfl
  | .sub parent name, a, b => elementsBefore_append parent ((name, none) :: a) b
  | .subWhere parent name filter, a, b =>
    elementsBefore_append parent ((name, some filter) :: a) b

theorem elementsBefore_eq (p : Path) (rest : List (String × Option Filter)) :
    p.elementsBefore rest = p.elements ++ rest :=
  p.elementsBefore_append [] rest

@[simp] theorem elements_root (urn : Option String) : (Path.root urn).elements = [] := rfl

@[simp] theorem elements_sub (p : Path) (name : String) :
    (p.sub name).elements = p.elements ++ [(name, none)] :=
  p.elementsBefore_eq [(name, none)]

@[simp] theorem elements_subWhere (p : Path) (name : String) (filter : Filter) :
    (p.subWhere name filter).elements = p.elements ++ [(name, some filter)] :=
  p.elementsBefore_eq [(name, some filter)]

@[simp] theorem length_elements : ∀ p : Path, p.elements.length = p.length
  | .root _ => rfl
  | .sub parent _ => by simp [length, length_elements parent]
  | .subWhere parent _ _ => by simp [length, length_elements parent]

end Path

namespace Filter

/-- The filters joined as a junction says. -/
def join : Junction → List Filter → Filter
  | .and, fs => .and fs
  | .or, fs => .or fs

/-- The filters joined as a junction says, if there are two of them at least. -/
def joinAll (j : Junction) (fs : List Filter) : Except Error Filter :=
  if fs.length < 2 then .error (.tooFewOperands fs.length) else .ok (join j fs)

/-- The word for the kind of a filter. -/
def kind : Filter → String
  | .compare op _ _ => op.keyword
  | .present _ => Operator.presentKeyword
  | .and _ => Junction.and.keyword
  | .or _ => Junction.or.keyword
  | .not _ => "not"
  | .complex _ _ => "complex"

/-- Does the filter compare an attribute with a value? -/
def isComparison : Filter → Bool
  | .compare _ _ _ => true
  | _ => false

/-- Does the filter join other filters? -/
def isCombining : Filter → Bool
  | .and _ => true
  | .or _ => true
  | _ => false

end Filter

end ScimQuery
