import ScimQuery.Number.Double

/-!
# Number

A number of a comparison value: a whole number that fits 64 bits, with or without a sign, or a
binary64 number.  Whole numbers and others stay apart: `25` and `25.0` are different numbers.
-/

namespace ScimQuery

namespace Number

/-- A whole number that fits 64 bits, with a sign or without one. -/
structure Whole where
  /-- The number itself. -/
  val : Int
  /-- It is at least the least signed one and at most the largest unsigned one. -/
  inRange : -0x8000000000000000 ≤ val ∧ val ≤ 0xffffffffffffffff
  deriving DecidableEq

/-- The whole number `n`, if it fits. -/
def Whole.ofInt? (n : Int) : Option Whole :=
  if h : -0x8000000000000000 ≤ n ∧ n ≤ 0xffffffffffffffff then some ⟨n, h⟩ else none

theorem Whole.ofInt?_eq_some_iff {n : Int} {w : Whole} : Whole.ofInt? n = some w ↔ w.val = n := by
  unfold Whole.ofInt?
  constructor
  · intro h
    split at h
    · cases h; rfl
    · cases h
  · rintro rfl
    rw [dif_pos w.inRange]

end Number

/-- A number of a comparison value. -/
inductive Number where
  | whole (n : Number.Whole)
  | double (d : Number.Double)
  deriving DecidableEq

namespace Number

/-- Equality of numbers: whole numbers by value, the others by value, never one with the
other. -/
def same : Number → Number → Bool
  | .whole m, .whole n => m.val == n.val
  | .double a, .double b => a.same b
  | _, _ => false

/-- Is the number none of the whole ones? -/
def isDouble : Number → Bool
  | .whole _ => false
  | .double _ => true

/-- The number as a signed 64-bit integer, if it is whole and fits. -/
def toSigned? : Number → Option Int
  | .whole n => if n.val < 0x8000000000000000 then some n.val else none
  | .double _ => none

/-- The number as a binary64 number, a whole one being rounded. -/
def toDouble? : Number → Option Double
  | .whole n => Double.ofInt? n.val
  | .double d => some d

end Number

end ScimQuery
