import Mathlib.Order.Bounds.Basic
import ScimQuery.Text.Compare

/-!
# Text — edits and their number

An edit inserts an element, deletes one, or substitutes a different one for it (`Edit`).  The
distance of two lists is the least number of edits that turn one into the other
(`isLeast_editDistance`).

* `editDistance_cons_cons`: the table holds the distances of all tails, so that the distance obeys
  the usual recursion.
* `edits_editDistance`: as many edits as the distance says are enough; the recursion finds them.
* `Edit.editDistance_le`: one edit changes no distance by more than one, so that fewer are not.
* `editDistance_eq_one_iff`: the lists that are one edit apart.
-/

namespace ScimQuery.Text

variable {α : Type}

/-! ### Edits -/

/-- One edit: an element is inserted, deleted, or substituted by a different one. -/
inductive Edit : List α → List α → Prop where
  | insert (before after : List α) (y : α) : Edit (before ++ after) (before ++ y :: after)
  | delete (before after : List α) (x : α) : Edit (before ++ x :: after) (before ++ after)
  | substitute (before after : List α) {x y : α} (h : x ≠ y) :
      Edit (before ++ x :: after) (before ++ y :: after)

/-- A number of edits, one after the other. -/
inductive Edits : Nat → List α → List α → Prop where
  | refl (xs : List α) : Edits 0 xs xs
  | more {n : Nat} {xs ys zs : List α} (h : Edit xs ys) (t : Edits n ys zs) : Edits (n + 1) xs zs

variable {n : Nat} {x y : α} {xs ys zs : List α}

theorem Edit.one (h : Edit xs ys) : Edits 1 xs ys :=
  .more h (.refl ys)

/-- An edit of what follows an element. -/
theorem Edit.cons (z : α) (h : Edit xs ys) : Edit (z :: xs) (z :: ys) := by
  cases h with
  | insert before after y => exact .insert (z :: before) after y
  | delete before after x => exact .delete (z :: before) after x
  | substitute before after h => exact .substitute (z :: before) after h

theorem Edits.cons (z : α) (h : Edits n xs ys) : Edits n (z :: xs) (z :: ys) := by
  induction h with
  | refl xs => exact .refl (z :: xs)
  | more h _ ih => exact .more (h.cons z) ih

theorem edits_nil_left : ∀ ys : List α, Edits ys.length [] ys
  | [] => .refl []
  | y :: ys => .more (.insert [] [] y) ((edits_nil_left ys).cons y)

theorem edits_nil_right : ∀ xs : List α, Edits xs.length xs []
  | [] => .refl []
  | x :: xs => .more (.delete [] xs x) (edits_nil_right xs)

/-- An edit leads to a different list. -/
theorem Edit.ne (h : Edit xs ys) : xs ≠ ys := by
  cases h with
  | insert before after y =>
      intro h
      have := congrArg List.length h
      simp at this
  | delete before after x =>
      intro h
      have := congrArg List.length h
      simp at this
  | substitute before after h => simpa using h

/-! ### The table -/

variable [BEq α]

/-- The row for `y :: ys` is the one for `ys` behind the distance of `y :: ys`. -/
theorem distanceRow_cons (xs : List α) (y : α) (ys : List α) :
    distanceRow xs (y :: ys) = editDistance xs (y :: ys) :: distanceRow xs ys := by
  induction xs with
  | nil => rfl
  | cons x xs ih =>
      have htail : (distanceRow xs (y :: ys)).tail = distanceRow xs ys := by rw [ih, List.tail_cons]
      have hrow : distanceRow (x :: xs) (y :: ys) =
          nextRow x (y :: ys) (distanceRow xs (y :: ys)) := rfl
      rw [editDistance, hrow, nextRow, htail]
      rfl

theorem distanceRow_nil (xs : List α) : distanceRow xs [] = [xs.length] := by
  induction xs with
  | nil => rfl
  | cons x xs ih =>
      have hrow : distanceRow (x :: xs) [] = nextRow x [] (distanceRow xs []) := rfl
      rw [hrow, ih]
      rfl

theorem editDistance_nil_left (ys : List α) : editDistance [] ys = ys.length := by
  cases ys <;> rfl

theorem editDistance_nil_right (xs : List α) : editDistance xs [] = xs.length := by
  rw [editDistance, distanceRow_nil]
  rfl

theorem editDistance_cons_cons (x y : α) (xs ys : List α) :
    editDistance (x :: xs) (y :: ys) =
      if x == y then editDistance xs ys
      else 1 + min (editDistance xs (y :: ys))
        (min (editDistance xs ys) (editDistance (x :: xs) ys)) := by
  have hrow : distanceRow (x :: xs) (y :: ys) =
      nextRow x (y :: ys) (distanceRow xs (y :: ys)) := rfl
  rw [editDistance, hrow, distanceRow_cons xs y ys]
  rfl

variable [LawfulBEq α]

/-- Equal elements in front cost nothing. -/
theorem editDistance_cons_self (x : α) (xs ys : List α) :
    editDistance (x :: xs) (x :: ys) = editDistance xs ys := by
  rw [editDistance_cons_cons, if_pos (beq_self_eq_true x)]

theorem editDistance_cons_of_ne (h : x ≠ y) (xs ys : List α) :
    editDistance (x :: xs) (y :: ys) =
      1 + min (editDistance xs (y :: ys))
        (min (editDistance xs ys) (editDistance (x :: xs) ys)) := by
  rw [editDistance_cons_cons, if_neg (by simpa using h)]

theorem editDistance_comm : ∀ xs ys : List α, editDistance xs ys = editDistance ys xs
  | [], ys => by rw [editDistance_nil_left, editDistance_nil_right]
  | x :: xs, [] => by rw [editDistance_nil_left, editDistance_nil_right]
  | x :: xs, y :: ys => by
      by_cases h : x = y
      · rw [h, editDistance_cons_self, editDistance_cons_self, editDistance_comm xs ys]
      · rw [editDistance_cons_of_ne h, editDistance_cons_of_ne (Ne.symm h),
          editDistance_comm xs ys, editDistance_comm (x :: xs) ys, editDistance_comm xs (y :: ys)]
        omega
termination_by xs ys => xs.length + ys.length

/-! ### Enough edits -/

/-- **As many edits as the distance says** turn the first list into the second. -/
theorem edits_editDistance : ∀ xs ys : List α, Edits (editDistance xs ys) xs ys
  | [], ys => by
      rw [editDistance_nil_left]
      exact edits_nil_left ys
  | x :: xs, [] => by
      rw [editDistance_nil_right]
      exact edits_nil_right (x :: xs)
  | x :: xs, y :: ys => by
      by_cases h : x = y
      · rw [h, editDistance_cons_self]
        exact (edits_editDistance xs ys).cons y
      have hdelete : Edits (editDistance xs (y :: ys) + 1) (x :: xs) (y :: ys) :=
        .more (.delete [] xs x) (edits_editDistance xs (y :: ys))
      have hsubstitute : Edits (editDistance xs ys + 1) (x :: xs) (y :: ys) :=
        .more (.substitute [] xs h) ((edits_editDistance xs ys).cons y)
      have hinsert : Edits (editDistance (x :: xs) ys + 1) (x :: xs) (y :: ys) :=
        .more (.insert [] (x :: xs) y) ((edits_editDistance (x :: xs) ys).cons y)
      rw [editDistance_cons_of_ne h, Nat.add_comm]
      exact min_rec' (fun n => Edits (n + 1) (x :: xs) (y :: ys)) hdelete
        (min_rec' (fun n => Edits (n + 1) (x :: xs) (y :: ys)) hsubstitute hinsert)
termination_by xs ys => xs.length + ys.length

/-! ### No fewer edits -/

/-- An element in front changes a distance by one at most. -/
theorem editDistance_cons_near (x : α) : ∀ xs ys : List α,
    editDistance (x :: xs) ys ≤ editDistance xs ys + 1 ∧
      editDistance xs ys ≤ editDistance (x :: xs) ys + 1
  | xs, [] => by
      rw [editDistance_nil_right, editDistance_nil_right, List.length_cons]
      omega
  | xs, y :: ys => by
      -- an element in front of `ys` does so, too: the distance is symmetric
      have hfront : editDistance xs ys ≤ editDistance xs (y :: ys) + 1 ∧
          editDistance xs (y :: ys) ≤ editDistance xs ys + 1 := by
        have hnear := editDistance_cons_near y ys xs
        rw [editDistance_comm ys xs, editDistance_comm (y :: ys) xs] at hnear
        exact hnear.symm
      by_cases h : x = y
      · rw [h, editDistance_cons_self]
        exact hfront
      · have hbehind := editDistance_cons_near x xs ys
        rw [editDistance_cons_of_ne h]
        omega
termination_by xs ys => xs.length + ys.length

/-- So does another element in front. -/
theorem editDistance_cons_le (x z : α) (xs : List α) : ∀ ys : List α,
    editDistance (x :: xs) ys ≤ editDistance (z :: xs) ys + 1
  | [] => by
      rw [editDistance_nil_right, editDistance_nil_right, List.length_cons, List.length_cons]
      omega
  | y :: ys => by
      have hnear := editDistance_cons_near y ys xs
      rw [editDistance_comm ys xs, editDistance_comm (y :: ys) xs] at hnear
      have hbehind := editDistance_cons_near z xs ys
      have hrest := editDistance_cons_le x z xs ys
      by_cases hx : x = y
      · rw [hx, editDistance_cons_self]
        by_cases hz : z = y
        · rw [hz, editDistance_cons_self]
          omega
        · rw [editDistance_cons_of_ne hz]
          omega
      · rw [editDistance_cons_of_ne hx]
        by_cases hz : z = y
        · rw [hz, editDistance_cons_self]
          omega
        · rw [editDistance_cons_of_ne hz]
          omega

/-- What is near stays near behind an element. -/
theorem editDistance_cons_mono (c : α) (h : ∀ ys, editDistance xs ys ≤ editDistance zs ys + 1) :
    ∀ ys, editDistance (c :: xs) ys ≤ editDistance (c :: zs) ys + 1
  | [] => by
      have hnil := h []
      rw [editDistance_nil_right, editDistance_nil_right] at hnil ⊢
      rw [List.length_cons, List.length_cons]
      omega
  | y :: ys => by
      have hsame := h ys
      have hmore := h (y :: ys)
      have hrest := editDistance_cons_mono c h ys
      by_cases hc : c = y
      · rw [hc, editDistance_cons_self, editDistance_cons_self]
        exact hsame
      · rw [editDistance_cons_of_ne hc, editDistance_cons_of_ne hc]
        omega

theorem editDistance_append_mono (before : List α)
    (h : ∀ ys, editDistance xs ys ≤ editDistance zs ys + 1) :
    ∀ ys, editDistance (before ++ xs) ys ≤ editDistance (before ++ zs) ys + 1 := by
  induction before with
  | nil => exact h
  | cons c before ih => exact editDistance_cons_mono c ih

/-- **One edit** changes a distance by one at most. -/
theorem Edit.editDistance_le (h : Edit xs zs) (ys : List α) :
    editDistance xs ys ≤ editDistance zs ys + 1 := by
  cases h with
  | insert before after y =>
      exact editDistance_append_mono before (fun ys => (editDistance_cons_near y after ys).2) ys
  | delete before after x =>
      exact editDistance_append_mono before (fun ys => (editDistance_cons_near x after ys).1) ys
  | @substitute before after x z _ =>
      exact editDistance_append_mono before (editDistance_cons_le x z after) ys

theorem editDistance_self (xs : List α) : editDistance xs xs = 0 := by
  induction xs with
  | nil => rfl
  | cons x xs ih => rw [editDistance_cons_self, ih]

/-- Fewer edits than the distance says do not do. -/
theorem Edits.editDistance_le (h : Edits n xs ys) : editDistance xs ys ≤ n := by
  induction h with
  | refl xs => rw [editDistance_self]
  | @more n xs zs ys h _ ih => exact Nat.le_trans (h.editDistance_le ys) (Nat.succ_le_succ ih)

/-- **The distance** is the least number of edits. -/
theorem isLeast_editDistance (xs ys : List α) :
    IsLeast {n | Edits n xs ys} (editDistance xs ys) :=
  ⟨edits_editDistance xs ys, fun _ h => h.editDistance_le⟩

/-- The lists that are one edit apart. -/
theorem editDistance_eq_one_iff : editDistance xs ys = 1 ↔ Edit xs ys := by
  constructor
  · intro h
    have hone := edits_editDistance xs ys
    rw [h] at hone
    cases hone with
    | more h t =>
        cases t
        exact h
  · intro h
    refine Nat.le_antisymm h.one.editDistance_le (Nat.one_le_iff_ne_zero.mpr ?_)
    intro hzero
    have hnone := edits_editDistance xs ys
    rw [hzero] at hnone
    cases hnone
    exact h.ne rfl

end ScimQuery.Text
