import ScimQuery.Json.Basic

/-!
# Value

The value on the right of a comparison: a JSON value that is neither a list nor an object.
-/

namespace ScimQuery

/-- A comparison value. -/
inductive Value where
  | null
  | bool (b : Bool)
  | number (n : Number)
  | string (s : String)
  deriving DecidableEq

namespace Value

/-- The value as a JSON value. -/
def toJson : Value → Json
  | .null => .null
  | .bool b => .bool b
  | .number n => .number n
  | .string s => .string s

/-- The JSON value as a comparison value, unless it is a list or an object. -/
def ofJson? : Json → Option Value
  | .null => some .null
  | .bool b => some (.bool b)
  | .number n => some (.number n)
  | .string s => some (.string s)
  | .array _ => none
  | .object _ => none

@[simp] theorem ofJson?_toJson (v : Value) : ofJson? v.toJson = some v := by
  cases v <;> rfl

theorem ofJson?_eq_some_iff {j : Json} {v : Value} : ofJson? j = some v ↔ j = v.toJson := by
  constructor
  · intro h
    cases j <;> cases h <;> rfl
  · rintro rfl
    exact ofJson?_toJson v

/-- The value of a whole number, if it fits. -/
def ofInt? (n : Int) : Option Value :=
  (Number.Whole.ofInt? n).map (fun w => .number (.whole w))

/-- The value of a binary64 number.  One that is infinite or undefined has no JSON text, and
its value is null. -/
def ofDouble? : Option Number.Double → Value
  | some d => .number (.double d)
  | none => .null

/-- The JSON text of a value. -/
def chars (v : Value) : List Char :=
  v.toJson.chars

/-- The JSON text of a value. -/
def text (v : Value) : String :=
  String.ofList v.chars

/-- Equality of values, where numbers are compared by value. -/
def same : Value → Value → Bool
  | .null, .null => true
  | .bool a, .bool b => a == b
  | .number m, .number n => m.same n
  | .string s, .string t => s == t
  | _, _ => false

/-- The number, if the value is one. -/
def number? : Value → Option Number
  | .number n => some n
  | _ => none

/-- The string, if the value is one. -/
def string? : Value → Option String
  | .string s => some s
  | _ => none

/-- The truth value, if the value is one. -/
def bool? : Value → Option Bool
  | .bool b => some b
  | _ => none

end Value

end ScimQuery
