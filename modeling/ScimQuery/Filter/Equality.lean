import ScimQuery.Filter.Basic

/-!
# Filter — Equality

Two filters are the same when they have the same shape, except that the operands of `and` and
of `or` are compared as sets: their order and repetition do not matter, at any depth.

Each operand on the left is compared with each one on the right once, so that the time taken
does not grow with the depth of nesting by itself.

* `Filter.same_and`, `Filter.same_or`: each operand of one side is the same as one of the other.
-/

namespace ScimQuery

mutual

/-- Are the two filters the same, up to order and repetition of operands? -/
def Filter.same : Filter → Filter → Bool
  | .compare op p v, .compare op' p' v' => op == op' && p.same p' && v.same v'
  | .present p, .present p' => p.same p'
  | .and fs, .and gs => (Filter.met fs gs).any (·.all id)
  | .or fs, .or gs => (Filter.met fs gs).any (·.all id)
  | .not f, .not g => f.same g
  | .complex p f, .complex p' g => p.same p' && f.same g
  | _, _ => false

/-- If each filter of the first list is the same as one of the second: for each of the second,
is it the same as one of the first? -/
def Filter.met : List Filter → List Filter → Option (List Bool)
  | [], gs => some (gs.map fun _ => false)
  | f :: fs, gs =>
    let row := gs.map fun g => f.same g
    if row.any id then (Filter.met fs gs).map (List.zipWith (· || ·) row) else none

/-- Are the two paths the same, up to order and repetition of operands in their filters? -/
def Path.same : Path → Path → Bool
  | .root urn, .root urn' => urn == urn'
  | .sub p name, .sub p' name' => name == name' && p.same p'
  | .subWhere p name f, .subWhere p' name' f' => name == name' && p.same p' && f.same f'
  | _, _ => false

end

theorem Filter.met_eq (gs : List Filter) : ∀ fs : List Filter,
    Filter.met fs gs =
      if fs.all (fun f => gs.any f.same) then some (gs.map fun g => fs.any (·.same g)) else none
  | [] => rfl
  | f :: fs => by
    have any_row : (gs.map fun g => f.same g).any id = gs.any f.same := List.any_map
    have or_row : List.zipWith (· || ·) (gs.map fun g => f.same g)
        (gs.map fun g => fs.any (·.same g)) = gs.map fun g => (f :: fs).any (·.same g) := by
      simp only [List.zipWith_map, List.zipWith_self, List.any_cons]
    rw [Filter.met, any_row, Filter.met_eq gs fs, List.all_cons, ← or_row]
    cases gs.any f.same <;> cases fs.all (fun f => gs.any f.same) <;> rfl

theorem Filter.same_and (fs gs : List Filter) :
    (Filter.and fs).same (.and gs) =
      (fs.all (fun f => gs.any f.same) && gs.all (fun g => fs.any (·.same g))) := by
  have all_met : (gs.map fun g => fs.any (·.same g)).all id = gs.all (fun g => fs.any (·.same g)) :=
    List.all_map
  rw [Filter.same, Filter.met_eq, ← all_met]
  cases fs.all (fun f => gs.any f.same) <;> rfl

theorem Filter.same_or (fs gs : List Filter) :
    (Filter.or fs).same (.or gs) =
      (fs.all (fun f => gs.any f.same) && gs.all (fun g => fs.any (·.same g))) :=
  Filter.same_and fs gs

/-- For each item of a list, the index of the first item that is the same. -/
def classes {α : Type} (same : α → α → Bool) (items : List α) : List Nat :=
  items.map (fun item => items.findIdx (fun other => same other item))

/-- The number of items of a list, those that are the same counted once. -/
def distinctCount {α : Type} (same : α → α → Bool) (items : List α) : Nat :=
  (classes same items).eraseDups.length

end ScimQuery
