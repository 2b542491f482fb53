import ScimQuery.Proofs.Filter.Nesting

/-!
# Filter — operands and junctions in balance

In front of an operand, a level has as many operands on its stack as junctions among its marks;
after an operand it has one more (`Level.Balanced`).  So folding never wants for operands:

* `Level.foldAnds_ok`, `Level.foldRuns_ok`: folding succeeds, and keeps the difference of operands
  and junctions.
* `Level.Balanced.join_ok`, `closeGroup_ok`, `closeGroup_error`, `finish_ok`: what a junction, a
  closing parenthesis and the end of the filter do after an operand is decided by whether a group
  is open.
* `Reading.Sound`: every level is in balance, and those that are suspended wait for an operand.
  `Reading.Sound.step_cases` is what a phrase does then, and `Reading.Sound.step` that it keeps the
  levels in balance.
-/

namespace ScimQuery

open Text (Cursor)

/-! ### Folding -/

namespace Level

/-- The number of junctions among the marks. -/
def junctions (marks : List Mark) : Nat :=
  marks.countP fun m => !m.isGroup

@[simp] theorem junctions_join (j : Junction) (marks : List Mark) :
    junctions (.join j :: marks) = junctions marks + 1 :=
  List.countP_cons_of_pos rfl

@[simp] theorem junctions_group (negated : Bool) (marks : List Mark) :
    junctions (.group negated :: marks) = junctions marks :=
  List.countP_cons_of_neg (by simp [Mark.isGroup])

theorem pop_ok {n : Nat} {operands : List Filter} (h : n + 1 ≤ operands.length) :
    ∃ f rest, operands = f :: rest ∧ n ≤ rest.length := by
  cases operands with
  | nil => cases h
  | cons f rest => exact ⟨f, rest, rfl, Nat.le_of_succ_le_succ h⟩

theorem foldRun_ok (j : Junction) {members operands : List Filter} (hmembers : members ≠ [])
    (hoperands : 1 ≤ operands.length) :
    ∃ operands', foldRun j members operands = .ok operands' ∧
      operands'.length = operands.length := by
  obtain ⟨f, rest, rfl, -⟩ := pop_ok (n := 0) hoperands
  obtain ⟨g, members, rfl⟩ := List.exists_cons_of_ne_nil hmembers
  refine ⟨.join j (f :: g :: members) :: rest, ?_, rfl⟩
  simp only [foldRun, pop, bind, Except.bind, joinAll_two]
  rfl

theorem endRun_ok {run : Run} {operands : List Filter} (hrun : Met run)
    (hoperands : 1 ≤ operands.length) :
    ∃ operands', endRun run operands = .ok operands' ∧ operands'.length = operands.length := by
  cases run with
  | none => exact ⟨operands, rfl, rfl⟩
  | some r => exact foldRun_ok r.1 (hrun r rfl) hoperands

/-- **Folding a run of `and` succeeds** where there is one more operand than junctions. -/
theorem foldAnds_ok (members : List Filter) (marks : List Mark) (operands : List Filter)
    (h : junctions marks + 1 ≤ operands.length) :
    ∃ marks' operands', foldAnds members marks operands = .ok (marks', operands') ∧
      operands'.length + junctions marks = operands.length + junctions marks' := by
  fun_induction foldAnds members marks operands with
  | case1 members marks operands ih =>
      rw [junctions_join] at h
      obtain ⟨f, rest, rfl, hrest⟩ := pop_ok h
      obtain ⟨marks', operands', hfold, hlength⟩ := ih f rest hrest
      refine ⟨marks', operands', hfold, ?_⟩
      rw [junctions_join, List.length_cons]
      omega
  | case2 members marks operands => exact ⟨marks, operands, rfl, rfl⟩
  | case3 members marks operands _ hmembers =>
      have hne : members ≠ [] := by simpa using hmembers
      obtain ⟨operands', hfold, hlength⟩ := foldRun_ok .and hne (Nat.le_of_add_left_le h)
      refine ⟨marks, operands', ?_, by rw [hlength]⟩
      rw [hfold]
      rfl

/-- **Folding succeeds** where there is one more operand than junctions: back to the innermost
group if one is open. -/
theorem foldRuns_ok (run : Run) (marks : List Mark) (operands : List Filter) (hrun : Met run)
    (h : junctions marks + 1 ≤ operands.length) :
    ∃ group marks' operands', foldRuns run marks operands = .ok (group, marks', operands') ∧
      (group = none ↔ marks.countP Mark.isGroup = 0) ∧
      operands'.length + junctions marks = operands.length + junctions marks' := by
  fun_induction foldRuns run marks operands with
  | case1 run operands =>
      obtain ⟨operands', hend, hlength⟩ := endRun_ok hrun (Nat.le_of_add_left_le h)
      refine ⟨none, [], operands', ?_, by simp, by rw [hlength]⟩
      rw [hend]
      rfl
  | case2 run negated marks operands =>
      obtain ⟨operands', hend, hlength⟩ := endRun_ok hrun (Nat.le_of_add_left_le h)
      refine ⟨some negated, marks, operands', ?_, ?_, by rw [hlength, junctions_group]⟩
      · rw [hend]
        rfl
      · rw [List.countP_cons_of_pos rfl]
        simp
  | case3 marks operands j members ih =>
      -- the run goes on
      rw [junctions_join] at h
      obtain ⟨f, rest, rfl, hrest⟩ := pop_ok h
      obtain ⟨group, marks', operands', hfold, hgroup, hlength⟩ :=
        ih f rest (met_cons j f members) hrest
      refine ⟨group, marks', operands', hfold, ?_, ?_⟩
      · rw [hgroup, List.countP_cons_of_neg (by simp [Mark.isGroup])]
      · rw [junctions_join, List.length_cons]
        omega
  | case4 j marks operands k members hne ih =>
      -- the other junction ends the run and starts one
      rw [junctions_join] at h
      obtain ⟨folded, hfolded, hsame⟩ := foldRun_ok k (hrun _ rfl) (Nat.le_of_add_left_le h)
      obtain ⟨f, rest, rfl, hrest⟩ := pop_ok (hsame ▸ h)
      obtain ⟨group, marks', operands', hfold, hgroup, hlength⟩ := ih f rest (met_cons j f []) hrest
      refine ⟨group, marks', operands', ?_, ?_, ?_⟩
      · rw [hfolded]
        exact hfold
      · rw [hgroup, List.countP_cons_of_neg (by simp [Mark.isGroup])]
      · rw [junctions_join, ← hsame, List.length_cons]
        omega
  | case5 j marks operands ih =>
      -- a junction starts the first run
      rw [junctions_join] at h
      obtain ⟨f, rest, rfl, hrest⟩ := pop_ok h
      obtain ⟨group, marks', operands', hfold, hgroup, hlength⟩ := ih f rest (met_cons j f []) hrest
      refine ⟨group, marks', operands', hfold, ?_, ?_⟩
      · rw [hgroup, List.countP_cons_of_neg (by simp [Mark.isGroup])]
      · rw [junctions_join, List.length_cons]
        omega

/-! ### Levels in balance -/

/-- There are as many operands as junctions where an operand is due, and one more after one. -/
def Balanced (l : Level) : Prop :=
  l.operands.length = junctions l.marks + if l.operandDue then 0 else 1

variable {l l' : Level}

theorem Balanced.push (h : l.Balanced) (hdue : l.operandDue = true) (f : Filter) :
    (l.push f).Balanced := by
  rw [Balanced, hdue, if_pos rfl] at h
  show l.operands.length + 1 = junctions l.marks + 1
  omega

theorem Balanced.opened (h : l.Balanced) (negated : Bool) : (l.opened negated).Balanced := by
  show l.operands.length = junctions (.group negated :: l.marks) + _
  rw [junctions_group]
  exact h

theorem Balanced.length (h : l.Balanced) (hdue : l.operandDue = false) :
    l.operands.length = junctions l.marks + 1 := by
  rwa [Balanced, hdue, if_neg (by simp)] at h

/-- A junction after an operand is taken in. -/
theorem Balanced.join_ok (h : l.Balanced) (hdue : l.operandDue = false) (j : Junction) :
    ∃ l', l.join j = .ok l' ∧ l'.Balanced ∧ l'.operandDue = true ∧ l'.bracket = l.bracket := by
  have hlength := h.length hdue
  cases j with
  | and =>
      refine ⟨_, rfl, ?_, rfl, rfl⟩
      show l.operands.length = junctions (.join .and :: l.marks) + 0
      rw [junctions_join, hlength, Nat.add_zero]
  | or =>
      obtain ⟨marks, operands, hfold, hkept⟩ := foldAnds_ok [] l.marks l.operands (by omega)
      refine ⟨{ l with marks := .join .or :: marks, operands, operandDue := true },
        ?_, ?_, rfl, rfl⟩
      · rw [join, hfold]
        rfl
      · show operands.length = junctions (.join .or :: marks) + 0
        rw [junctions_join]
        omega

/-- After an operand, the innermost group is closed. -/
theorem Balanced.closeGroup_ok (h : l.Balanced) (htracked : l.Tracked)
    (hdue : l.operandDue = false) (hopen : l.openGroups ≠ 0) (position : Nat) :
    ∃ l', l.closeGroup position = .ok l' ∧ l'.Balanced ∧ l'.operandDue = false ∧
      l'.bracket = l.bracket ∧ l'.openGroups = l.openGroups - 1 := by
  have hlength := h.length hdue
  obtain ⟨group, marks, operands, hfold, hgroup, hkept⟩ :=
    foldRuns_ok none l.marks l.operands met_none (by omega)
  have hsome : group ≠ none := by
    rw [Ne, hgroup, ← htracked.groups]
    exact hopen
  obtain ⟨negated, rfl⟩ := Option.ne_none_iff_exists'.mp hsome
  rw [closeGroup, hfold]
  cases negated with
  | false =>
      refine ⟨_, rfl, ?_, hdue, rfl, rfl⟩
      show operands.length = junctions marks + if l.operandDue then 0 else 1
      rw [hdue, if_neg (by simp)]
      omega
  | true =>
      have hone : 0 + 1 ≤ operands.length := by omega
      obtain ⟨f, rest, rfl, -⟩ := pop_ok hone
      refine ⟨_, rfl, ?_, hdue, rfl, rfl⟩
      show rest.length + 1 = junctions marks + if l.operandDue then 0 else 1
      rw [hdue, if_neg (by simp)]
      rw [List.length_cons] at hkept
      omega

/-- There is no group to close where none is open. -/
theorem Balanced.closeGroup_error (h : l.Balanced) (htracked : l.Tracked)
    (hdue : l.operandDue = false) (hopen : l.openGroups = 0) (position : Nat) :
    l.closeGroup position = .error (.unmatchedCloseParen position) := by
  have hlength := h.length hdue
  obtain ⟨group, marks, operands, hfold, hgroup, -⟩ :=
    foldRuns_ok none l.marks l.operands met_none (by omega)
  obtain rfl : group = none := hgroup.mpr (htracked.groups ▸ hopen)
  rw [closeGroup, hfold]
  rfl

/-- After an operand, the filter may end where no group is open. -/
theorem Balanced.finish_ok (h : l.Balanced) (htracked : l.Tracked) (hdue : l.operandDue = false)
    (hopen : l.openGroups = 0) : ∃ f, l.finish = .ok f := by
  have hlength := h.length hdue
  obtain ⟨group, marks, operands, hfold, hgroup, hkept⟩ :=
    foldRuns_ok none l.marks l.operands met_none (by omega)
  obtain rfl : group = none := hgroup.mpr (htracked.groups ▸ hopen)
  have hone : 0 + 1 ≤ operands.length := by omega
  obtain ⟨f, rest, rfl, -⟩ := pop_ok hone
  refine ⟨f, ?_⟩
  rw [finish, hfold]
  rfl

end Level

/-! ### Readings -/

namespace CutOff

/-- What is known of a result under some limit. -/
theorem exists_of_ok {α : Type} {P : α → Nat → Prop} {read : Nat → Except Error α} {d : Nat} {a : α}
    (h : CutOff P read) (ha : read d = .ok a) : ∃ n, P a n := by
  obtain ⟨n, x, hread, hP⟩ := h
  rw [hread] at ha
  split at ha
  · exact ⟨n, hP a ha⟩
  · cases ha

end CutOff

namespace Reading

/-- The levels are one inside the other, each in balance, and those that are suspended wait for an
operand. -/
structure Sound (base : Nat) (r : Reading) : Prop where
  stacked : r.level.Stacked base r.outer
  level : r.level.Balanced
  outer : ∀ e ∈ r.outer, e.2.Balanced ∧ e.2.operandDue = true

variable {base : Nat} {limits : Limits} {r r' : Reading} {phrase : Phrase} {due : Bool}
  {c next : Cursor}

/-- A step opens one group or value filter at most. -/
theorem Sound.step_stacked (hr : r.Sound base)
    (hread : Phrase.Reads r.level.region due c phrase next)
    (h : r.step limits phrase = .ok (.more r')) :
    r'.level.Stacked base r'.outer ∧ r'.level.nesting ≤ r.level.nesting + 1 := by
  have hclose : phrase = .closeValue → r.level.region = .valueFilter := by
    rintro rfl
    exact Phrase.region_of_read_closeValue (Phrase.read_eq_some_iff.mpr hread)
  obtain ⟨n, ⟨hstacked, hnesting⟩, -⟩ :=
    (@step_cutOff base limits.maxLength r hr.stacked phrase hclose).exists_of_ok h
  refine ⟨hstacked, ?_⟩
  rw [hnesting]
  cases phrase with
  | operand f => exact Nat.le_succ _
  | join j => exact Nat.le_succ _
  | openGroup negated => exact Nat.le_refl _
  | openValue path position => exact Nat.le_refl _
  | closeGroup position => exact Nat.le_succ_of_le (Nat.sub_le _ 1)
  | closeValue => exact Nat.le_succ_of_le (Nat.sub_le _ 1)

/-- An operand where one is due. -/
theorem Sound.push {l : Level} {outer : List (Path × Level)} (h : Sound base ⟨l, outer⟩)
    (hdue : l.operandDue = true) (f : Filter) : Sound base ⟨l.push f, outer⟩ :=
  ⟨h.stacked.replace (h.stacked.tracked.push f) rfl, h.level.push hdue f, h.outer⟩

/-- A group where an operand is due. -/
theorem Sound.opened {l : Level} {outer : List (Path × Level)} (h : Sound base ⟨l, outer⟩)
    (negated : Bool) : Sound base ⟨l.opened negated, outer⟩ :=
  ⟨h.stacked.replace (h.stacked.tracked.opened negated) rfl, h.level.opened negated, h.outer⟩

/-- **What a step does**: it goes on in the level that is read, suspends it, or goes on with the
suspended one. -/
theorem Sound.step_cases (hr : r.Sound base) (hdue : r.level.operandDue = due)
    (hread : Phrase.Reads r.level.region due c phrase next)
    (h : r.step limits phrase = .ok (.more r')) :
    (∃ l', r' = ⟨l', r.outer⟩ ∧ l'.Balanced ∧ l'.bracket = r.level.bracket) ∨
    (∃ path k, phrase = .openValue path k ∧ r.level.operandDue = true ∧
      r' = ⟨{ bracket := some k, depth := r.level.nesting + 1 }, (path, r.level) :: r.outer⟩) ∨
    (∃ path l outer f, r.outer = (path, l) :: outer ∧ r' = ⟨l.push (.complex path f), outer⟩) := by
  cases step_eq_more_iff.mp h with
  | operand =>
      cases hread
      exact .inl ⟨_, rfl, hr.level.push hdue _, rfl⟩
  | openGroup => exact .inl ⟨_, rfl, hr.level.opened _, rfl⟩
  | openValue =>
      cases hread
      exact .inr (.inl ⟨_, _, rfl, hdue, rfl⟩)
  | join hjoin =>
      cases hread
      obtain ⟨l'', hjoin', hlevel, -, hbracket⟩ := hr.level.join_ok hdue _
      rw [hjoin] at hjoin'
      cases hjoin'
      exact .inl ⟨_, rfl, hlevel, hbracket⟩
  | @closeGroup l _ _ k hclose =>
      cases hread
      by_cases hgroups : l.openGroups = 0
      · rw [hr.level.closeGroup_error hr.stacked.tracked hdue hgroups] at hclose
        cases hclose
      · obtain ⟨l'', hclose', hlevel, -, hbracket, -⟩ :=
          hr.level.closeGroup_ok hr.stacked.tracked hdue hgroups k
        rw [hclose] at hclose'
        cases hclose'
        exact .inl ⟨_, rfl, hlevel, hbracket⟩
  | closeValue => exact .inr (.inr ⟨_, _, _, _, rfl, rfl⟩)

/-- **Each phrase keeps the levels in balance.** -/
theorem Sound.step (hr : r.Sound base) (hdue : r.level.operandDue = due)
    (hread : Phrase.Reads r.level.region due c phrase next)
    (h : r.step limits phrase = .ok (.more r')) : r'.Sound base := by
  have hstacked := (hr.step_stacked hread h).1
  rcases hr.step_cases hdue hread h with
    ⟨l', rfl, hlevel, -⟩ | ⟨path, k, -, hwaits, rfl⟩ | ⟨path, l, outer, f, houter, rfl⟩
  · exact ⟨hstacked, hlevel, hr.outer⟩
  · refine ⟨hstacked, rfl, ?_⟩
    intro e he
    rcases List.mem_cons.mp he with rfl | he
    · exact ⟨hr.level, hwaits⟩
    · exact hr.outer e he
  · have hall := hr.outer
    rw [houter, List.forall_mem_cons] at hall
    exact ⟨hstacked, hall.1.1.push hall.1.2 _, hall.2⟩

/-- **How a step fails** where one more group may be opened: a parenthesis closes no group, or a
bracket closes a value filter in which a group is open. -/
theorem Sound.step_error {e : Error} (hr : r.Sound base) (hdue : r.level.operandDue = due)
    (hread : Phrase.Reads r.level.region due c phrase next)
    (hdepth : r.level.nesting < limits.maxDepth) (h : r.step limits phrase = .error e) :
    (∃ k, phrase = .closeGroup k ∧ e = .unmatchedCloseParen k) ∨
    (phrase = .closeValue ∧ r.level.operandDue = false ∧ r.level.openGroups ≠ 0 ∧
      r.level.finish = .error e) := by
  obtain ⟨l, outer⟩ := r
  have hopen (negated : Bool) : l.openGroup limits negated = .ok (l.opened negated) := by
    rw [Level.openGroup_eq, if_neg (Nat.not_le.mpr hdepth)]
  cases hread with
  | openGroup =>
      simp only [Reading.step, hopen] at h
      cases h
  | openNegated =>
      simp only [Reading.step, hopen] at h
      cases h
  | operand => cases h
  | openValue =>
      have hvalue : ¬ limits.maxDepth ≤ l.nesting := Nat.not_le.mpr hdepth
      simp only [Reading.step, openValue, if_neg hvalue] at h
      cases h
  | @join _ _ _ _ j =>
      obtain ⟨l', hjoin, -⟩ := hr.level.join_ok hdue j
      simp only [Reading.step, hjoin] at h
      cases h
  | @closeGroup _ _ k =>
      by_cases hgroups : l.openGroups = 0
      · have hclose := hr.level.closeGroup_error hr.stacked.tracked hdue hgroups k
        simp only [Reading.step, hclose] at h
        cases h
        exact .inl ⟨k, rfl, rfl⟩
      · obtain ⟨l', hclose, -⟩ := hr.level.closeGroup_ok hr.stacked.tracked hdue hgroups k
        simp only [Reading.step, hclose] at h
        cases h
  | closeValue =>
      refine .inr ⟨rfl, hdue, ?_, ?_⟩
      · intro hgroups
        obtain ⟨f, hfinish⟩ := hr.level.finish_ok hr.stacked.tracked hdue hgroups
        simp only [Reading.step, closeValue, hfinish] at h
        cases outer <;> cases h
      · cases hfinish : l.finish with
        | ok f =>
            simp only [Reading.step, closeValue, hfinish] at h
            cases outer <;> cases h
        | error e' =>
            simp only [Reading.step, closeValue, hfinish] at h
            cases h
            rfl

/-! ### The brackets that are open -/

/-- The value filters that are open start at places of a kind. -/
structure OpenedAt (P : Nat → Prop) (r : Reading) : Prop where
  level : ∀ p ∈ r.level.bracket, P p
  outer : ∀ e ∈ r.outer, ∀ p ∈ e.2.bracket, P p

/-- A step opens no value filter but that of its phrase. -/
theorem Sound.step_openedAt {P : Nat → Prop} (hr : r.Sound base) (hdue : r.level.operandDue = due)
    (hread : Phrase.Reads r.level.region due c phrase next)
    (h : r.step limits phrase = .ok (.more r')) (hopened : r.OpenedAt P)
    (hphrase : ∀ path k, phrase = .openValue path k → P k) : r'.OpenedAt P := by
  rcases hr.step_cases hdue hread h with
    ⟨l', rfl, -, hbracket⟩ | ⟨path, k, hopens, -, rfl⟩ | ⟨path, l, outer, f, houter, rfl⟩
  · exact ⟨fun p hp => hopened.level p (hbracket ▸ hp), hopened.outer⟩
  · constructor
    case level =>
      rintro p ⟨⟩
      exact hphrase path k hopens
    case outer =>
      intro e he
      rcases List.mem_cons.mp he with rfl | he
      · exact hopened.level
      · exact hopened.outer e he
  · have hall := hopened.outer
    rw [houter, List.forall_mem_cons] at hall
    exact ⟨hall.1, hall.2⟩

end Reading

end ScimQuery
