import ScimQuery.Filter.Nodes
import ScimQuery.Proofs.Filter.Balance

/-!
# Filter — what is on the stacks

The items of a filter (`Filter.items`) are its conditions and the paths of its value filters, in the
order of a walk.  Those of a reading are on its stacks of operands, those of the suspended levels
first (`Reading.items`).

* `Level.foldRuns_items`: folding keeps the items and their order.
* `Level.Balanced.finish_eq_ok`: where a filter ends, nothing else is left on the stacks.
* `Reading.Sound.step_items`, `Reading.Sound.finish_items`: a step adds the items of its phrase, and
  a filter that ends has those that were added.  So none is lost, none is taken in twice, and no two
  change places.
-/

namespace ScimQuery

/-! ### Items -/

namespace Filter

/-- What a filter says of an attribute. -/
inductive Item where
  /-- A comparison, or that there is a value. -/
  | condition (f : Filter)
  /-- A value filter narrows it. -/
  | narrowed (path : Path)

/-- What a node says by itself. -/
def item? : Filter → Option Item
  | .compare op path value => some (.condition (.compare op path value))
  | .present path => some (.condition (.present path))
  | .complex path _ => some (.narrowed path)
  | _ => none

/-- The items of a filter, in the order of a walk. -/
def items (f : Filter) : List Item :=
  f.nodes.filterMap fun node => node.2.item?

mutual

theorem items_nodesAt (d : Nat) : ∀ f : Filter,
    (f.nodesAt d).filterMap (fun node => node.2.item?) = f.items
  | .compare _ _ _ => rfl
  | .present _ => rfl
  | .and fs => (items_nodesOf (d + 1) fs).trans (items_nodesOf 1 fs).symm
  | .or fs => (items_nodesOf (d + 1) fs).trans (items_nodesOf 1 fs).symm
  | .not f => (items_nodesAt (d + 1) f).trans (items_nodesAt 1 f).symm
  | .complex path f =>
      congrArg (Item.narrowed path :: ·) ((items_nodesAt (d + 1) f).trans (items_nodesAt 1 f).symm)

theorem items_nodesOf (d : Nat) : ∀ fs : List Filter,
    (nodesOf d fs).filterMap (fun node => node.2.item?) = fs.flatMap items
  | [] => rfl
  | f :: fs => by
      rw [nodesOf, List.filterMap_append, items_nodesAt d f, items_nodesOf d fs, List.flatMap_cons]

end

@[simp] theorem items_join (j : Junction) (fs : List Filter) :
    (join j fs).items = fs.flatMap items := by
  cases j <;> exact items_nodesOf 1 fs

@[simp] theorem items_not (f : Filter) : (not f).items = f.items :=
  items_nodesAt 1 f

@[simp] theorem items_complex (path : Path) (f : Filter) :
    (complex path f).items = .narrowed path :: f.items :=
  congrArg (Item.narrowed path :: ·) (items_nodesAt 1 f)

end Filter

/-! ### Folding -/

namespace Level

/-- The items of the operands on a stack, in the order of the text. -/
def items (operands : List Filter) : List Filter.Item :=
  operands.reverse.flatMap Filter.items

theorem items_cons (f : Filter) (operands : List Filter) :
    items (f :: operands) = items operands ++ f.items := by
  simp [items]

variable {operands operands' : List Filter} {marks marks' : List Mark} {l l' : Level}

/-- Members are taken off the stack, so that they stand behind what is left on it. -/
theorem foldRun_items {j : Junction} {members : List Filter}
    (h : foldRun j members operands = .ok operands') :
    items operands' = items operands ++ members.flatMap Filter.items := by
  obtain ⟨⟨first, rest⟩, hpop, h⟩ := Text.bind_eq_ok_iff.mp h
  obtain ⟨joined, hjoin, h⟩ := Text.bind_eq_ok_iff.mp h
  cases h
  obtain rfl := pop_eq_ok_iff.mp hpop
  unfold Filter.joinAll at hjoin
  split at hjoin
  · cases hjoin
  · cases hjoin
    rw [items_cons, items_cons, Filter.items_join, List.flatMap_cons, List.append_assoc]

theorem foldAnds_items {members : List Filter}
    (h : foldAnds members marks operands = .ok (marks', operands')) :
    items operands' = items operands ++ members.flatMap Filter.items := by
  fun_induction foldAnds members marks operands with
  | case1 members marks operands ih =>
      obtain ⟨⟨f, rest⟩, hpop, h⟩ := Text.bind_eq_ok_iff.mp h
      rw [ih f rest h, pop_eq_ok_iff.mp hpop, items_cons, List.flatMap_cons, List.append_assoc]
  | case2 members marks operands _ hempty =>
      cases h
      obtain rfl : members = [] := by simpa using hempty
      simp
  | case3 members marks operands =>
      obtain ⟨folded, hfold, h⟩ := Text.bind_eq_ok_iff.mp h
      cases h
      exact foldRun_items hfold

/-- The members of a run. -/
def Run.members : Run → List Filter
  | none => []
  | some r => r.2

theorem endRun_items {run : Run} (h : endRun run operands = .ok operands') :
    items operands' = items operands ++ (Run.members run).flatMap Filter.items := by
  cases run with
  | none =>
      cases h
      simp [Run.members]
  | some r => exact foldRun_items h

/-- **Folding keeps the items in their order.** -/
theorem foldRuns_items {run : Run} {group : Option Bool}
    (h : foldRuns run marks operands = .ok (group, marks', operands')) :
    items operands' = items operands ++ (Run.members run).flatMap Filter.items := by
  fun_induction foldRuns run marks operands with
  | case1 =>
      obtain ⟨ended, hend, h⟩ := Text.bind_eq_ok_iff.mp h
      cases h
      exact endRun_items hend
  | case2 =>
      obtain ⟨ended, hend, h⟩ := Text.bind_eq_ok_iff.mp h
      cases h
      exact endRun_items hend
  | case3 operands marks j members ih =>
      obtain ⟨⟨f, rest⟩, hpop, h⟩ := Text.bind_eq_ok_iff.mp h
      rw [ih f rest h, pop_eq_ok_iff.mp hpop, items_cons]
      simp [Run.members]
  | case4 operands marks j k members hne ih =>
      obtain ⟨folded, hfold, h⟩ := Text.bind_eq_ok_iff.mp h
      obtain ⟨⟨f, rest⟩, hpop, h⟩ := Text.bind_eq_ok_iff.mp h
      have hitems := foldRun_items hfold
      rw [pop_eq_ok_iff.mp hpop, items_cons] at hitems
      rw [ih f rest h]
      simpa [Run.members] using hitems
  | case5 operands marks j ih =>
      obtain ⟨⟨f, rest⟩, hpop, h⟩ := Text.bind_eq_ok_iff.mp h
      rw [ih f rest h, pop_eq_ok_iff.mp hpop, items_cons]
      simp [Run.members]

theorem foldRuns_none_items {group : Option Bool}
    (h : foldRuns none marks operands = .ok (group, marks', operands')) :
    items operands' = items operands := by
  simpa [Run.members] using foldRuns_items h

theorem join_items {j : Junction} (h : l.join j = .ok l') :
    items l'.operands = items l.operands := by
  cases j with
  | and =>
      cases h
      rfl
  | or =>
      obtain ⟨folded, hfold, h⟩ := Text.bind_eq_ok_iff.mp h
      cases h
      simpa using foldAnds_items hfold

theorem closeGroup_items {position : Nat} (h : l.closeGroup position = .ok l') :
    items l'.operands = items l.operands := by
  obtain ⟨negated, marks, operands, operands', hfold, hkept, rfl⟩ := closeGroup_cases h
  rw [← foldRuns_none_items hfold]
  rcases hkept with rfl | ⟨f, rest, rfl, rfl⟩
  · rfl
  · rw [items_cons, items_cons, Filter.items_not]

/-- **Where a filter ends, nothing else is left on the stacks**, and no operand is due. -/
theorem Balanced.finish_eq_ok {f : Filter} (hl : l.Balanced) (h : l.finish = .ok f) :
    l.operandDue = false ∧ foldRuns none l.marks l.operands = .ok (none, [], [f]) := by
  obtain ⟨js, rest, hmarks, hlength, hfold⟩ := finish_cases h
  have hjunctions : junctions l.marks = js.length := by
    rw [hmarks, junctions, List.countP_eq_length.mpr (by simp [Mark.isGroup]), List.length_map]
  rw [Balanced, hjunctions] at hl
  have hdue : l.operandDue = false := by
    by_contra hdue
    rw [if_pos (by simpa using hdue)] at hl
    omega
  rw [hdue, if_neg (by simp)] at hl
  obtain rfl : rest = [] := List.eq_nil_of_length_eq_zero (by omega)
  exact ⟨hdue, hfold⟩

theorem Balanced.finish_items {f : Filter} (hl : l.Balanced) (h : l.finish = .ok f) :
    items l.operands = f.items := by
  rw [← foldRuns_none_items (hl.finish_eq_ok h).2, items_cons]
  rfl

end Level

/-! ### Steps -/

/-- The items that a phrase holds or opens. -/
def Phrase.items : Phrase → List Filter.Item
  | .operand f => f.items
  | .openValue path _ => [.narrowed path]
  | _ => []

namespace Reading

variable {base : Nat} {limits : Limits} {r r' : Reading} {phrase : Phrase} {f : Filter}

/-- The items that have been read or opened, in the order of the text. -/
def items (r : Reading) : List Filter.Item :=
  (r.outer.reverse.flatMap fun e => Level.items e.2.operands ++ [.narrowed e.1]) ++
    Level.items r.level.operands

/-- **A step adds the items of its phrase.** -/
theorem Sound.step_items (hr : r.Sound base) (h : r.step limits phrase = .ok (.more r')) :
    r'.items = r.items ++ phrase.items := by
  cases step_eq_more_iff.mp h with
  | operand => simp only [items, Level.push, Level.items_cons, Phrase.items, List.append_assoc]
  | openGroup => exact (List.append_nil _).symm
  | closeGroup hclose =>
      simp only [items, Level.closeGroup_items hclose, Phrase.items, List.append_nil]
  | join hjoin => simp only [items, Level.join_items hjoin, Phrase.items, List.append_nil]
  | openValue => simp [items, Level.items, Phrase.items]
  | closeValue hfinish =>
      -- the path is there since the bracket was opened, and the level has the items behind it
      simp [items, Level.push, Level.items_cons, Phrase.items, hr.level.finish_items hfinish]

/-- Where nothing is suspended, the items of the filter that ends are those of the reading. -/
theorem Sound.finish_items (hr : r.Sound base) (houter : r.outer = [])
    (h : r.level.finish = .ok f) : f.items = r.items := by
  rw [items, houter, ← hr.level.finish_items h]
  rfl

end Reading

end ScimQuery
