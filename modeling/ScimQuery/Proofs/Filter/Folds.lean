import ScimQuery.Filter.Reader
import ScimQuery.Proofs.Text.Outcome

/-!
# Filter — runs of junctions on the stacks

Between two marks of a group, the stacks of a level hold at most two runs: the operands of an
`or` that may still grow, and above them those of an `and` (`Pending`).  `Level.waiting` puts
such runs on top of a level, where the next operand is due; `Pending.join` is the filter that
they become together with it.

* `foldRuns_run`: folding takes a run as a whole and leaves its joined filter.
* `foldAnds_marks`, `foldRuns_marks`: the marks that folding takes off.
* `join_and`, `join_or`: a junction after an operand goes on with one of the two runs.
* `closeGroup_waiting`, `finish_waiting`: at the end of a group or of the filter, the runs and
  the last operand count as the one filter that they are joined to.
* `foldAnds_refuses`, `foldRuns_refuses`: folding fails for want of operands only, for what it joins
  are two of them at least.
-/

namespace ScimQuery

open Text (RefusesFor refusesFor_ok refusesFor_error)

/-- Some filters of one run: a single one stands for itself, more of them are joined. -/
def Filter.joined (j : Junction) : List Filter → Filter
  | [f] => f
  | fs => .join j fs

/-- The operands of the open runs, the latest first. -/
structure Pending where
  /-- The operands of the run of `or`. -/
  alternatives : List Filter := []
  /-- The operands of the run of `and` above it. -/
  terms : List Filter := []

namespace Pending

/-- The marks of the runs, where one more operand is due. -/
def marks (p : Pending) : List Mark :=
  List.replicate p.terms.length (.join .and) ++ List.replicate p.alternatives.length (.join .or)

/-- The operands of the runs. -/
def operands (p : Pending) : List Filter :=
  p.terms ++ p.alternatives

/-- The run of `and`, ended by the operand `f`. -/
def conjunction (p : Pending) (f : Filter) : Filter :=
  .joined .and (f :: p.terms).reverse

/-- Both runs, ended by the operand `f`. -/
def join (p : Pending) (f : Filter) : Filter :=
  .joined .or (p.conjunction f :: p.alternatives).reverse

end Pending

namespace Level

theorem pop_eq_ok_iff {operands rest : List Filter} {f : Filter} :
    pop operands = .ok (f, rest) ↔ operands = f :: rest := by
  cases operands <;> simp [pop]

/-! ### Folding a run -/

/-- No junction is on top of the marks: a group is, or there are none. -/
def Opens (marks : List Mark) : Prop :=
  ∀ j, Mark.join j ∉ marks.head?

theorem opens_nil : Opens [] := by
  intro j h
  cases h

theorem opens_group (negated : Bool) (marks : List Mark) : Opens (.group negated :: marks) := by
  intro j h
  cases h

theorem joinAll_two (j : Junction) (f g : Filter) (fs : List Filter) :
    Filter.joinAll j (f :: g :: fs) = .ok (.join j (f :: g :: fs)) := by
  rw [Filter.joinAll, if_neg (by simp)]

/-- The run of some members, `none` if there are none yet. -/
def runOf (j : Junction) : List Filter → Run
  | [] => none
  | f :: fs => some (j, f :: fs)

/-- Folding a run whose first operand is `f` leaves the joined filter. -/
theorem foldRuns_runOf {j : Junction} (members : List Filter) {marks : List Mark} (f : Filter)
    (operands : List Filter) (h : .join j ∉ marks.head?) :
    foldRuns (runOf j members) marks (f :: operands) =
      foldRuns none marks (.joined j (f :: members) :: operands) := by
  cases members with
  | nil => rfl
  | cons g members =>
      have hrun : foldRun j (g :: members) (f :: operands) =
          .ok (.joined j (f :: g :: members) :: operands) := by
        simp only [foldRun, pop, bind, Except.bind, joinAll_two]
        rfl
      match marks, h with
      | [], _ => simp only [runOf, foldRuns, endRun, hrun]
      | .group _ :: _, _ => simp only [runOf, foldRuns, endRun, hrun]
      | .join k :: _, h =>
          have hk : k ≠ j := by simpa using h
          simp only [runOf, foldRuns, if_neg hk, hrun]
          rfl

/-- **Folding takes a run as a whole.**  The members met so far and the operands `f :: terms` of
the marks on top become one filter. -/
theorem foldRuns_run {j : Junction} {marks : List Mark} (h : .join j ∉ marks.head?)
    (operands members : List Filter) (f : Filter) (terms : List Filter) :
    foldRuns (runOf j members) (List.replicate terms.length (.join j) ++ marks)
        (f :: (terms ++ operands)) =
      foldRuns none marks (.joined j ((f :: terms).reverse ++ members) :: operands) := by
  -- each mark moves its operand from the stack to the members, so these grow along the induction
  induction terms generalizing f members with
  | nil => exact foldRuns_runOf members f operands h
  | cons t terms ih =>
      have hstep : foldRuns (runOf j members)
          (List.replicate (t :: terms).length (.join j) ++ marks) (f :: (t :: terms ++ operands)) =
            foldRuns (runOf j (f :: members)) (List.replicate terms.length (.join j) ++ marks)
              (t :: (terms ++ operands)) := by
        cases members with
        | nil => rfl
        | cons g members =>
            simp only [runOf, List.length_cons, List.replicate_succ, List.cons_append, foldRuns,
              if_pos]
            rfl
      rw [hstep, ih]
      simp

theorem foldAnds_run {marks : List Mark} (h : .join .and ∉ marks.head?)
    (operands members : List Filter) (f : Filter) (terms : List Filter) :
    foldAnds members (List.replicate terms.length (.join .and) ++ marks)
        (f :: (terms ++ operands)) =
      .ok (marks, .joined .and ((f :: terms).reverse ++ members) :: operands) := by
  induction terms generalizing f members with
  | nil =>
      have hfold : foldAnds members marks (f :: operands) =
          if members.isEmpty then .ok (marks, f :: operands)
          else do return (marks, ← foldRun .and members (f :: operands)) := by
        unfold foldAnds
        split
        · simp at h
        · rfl
      simp only [List.length_nil, List.replicate_zero, List.nil_append, hfold]
      cases members with
      | nil => rfl
      | cons g members =>
          simp only [foldRun, pop, bind, Except.bind, joinAll_two]
          rfl
  | cons t terms ih =>
      have hstep : foldAnds members (List.replicate (t :: terms).length (.join .and) ++ marks)
          (f :: (t :: terms ++ operands)) =
            foldAnds (f :: members) (List.replicate terms.length (.join .and) ++ marks)
              (t :: (terms ++ operands)) := rfl
      rw [hstep, ih]
      simp

/-! ### A level with open runs -/

/-- The level with open runs on top of its marks, in front of an operand. -/
def waiting (l : Level) (p : Pending) : Level :=
  { l with
    marks := p.marks ++ l.marks, operands := p.operands ++ l.operands, operandDue := true }

variable {l : Level} {p : Pending} {f : Filter}

@[simp] theorem region_waiting : (l.waiting p).region = l.region := rfl

@[simp] theorem nesting_waiting : (l.waiting p).nesting = l.nesting := rfl

theorem waiting_empty (h : l.operandDue = true) : l.waiting {} = l := by
  cases l
  cases h
  rfl

theorem join_not_mem_head_replicate (h : Opens l.marks) (n : Nat) :
    Mark.join .and ∉ (List.replicate n (Mark.join .or) ++ l.marks).head? := by
  cases n with
  | zero => exact h .and
  | succ n => simp [List.replicate_succ]

/-- The marks and operands of both runs fold to the one filter that they are joined to. -/
theorem foldRuns_pending (h : Opens l.marks) :
    foldRuns none (p.marks ++ l.marks) (f :: (p.operands ++ l.operands)) =
      foldRuns none l.marks (p.join f :: l.operands) := by
  have hterms := foldRuns_run (join_not_mem_head_replicate h p.alternatives.length)
    (p.alternatives ++ l.operands) [] f p.terms
  have halternatives := foldRuns_run (h .or) l.operands [] (p.conjunction f) p.alternatives
  rw [List.append_nil] at hterms halternatives
  rw [Pending.marks, Pending.operands, List.append_assoc, List.append_assoc]
  exact hterms.trans halternatives

/-- `and` after an operand adds it to the run of `and`. -/
theorem join_and :
    ((l.waiting p).push f).join .and = .ok (l.waiting { p with terms := f :: p.terms }) :=
  rfl

/-- `or` after an operand ends the run of `and` and adds it to the run of `or`. -/
theorem join_or (h : Opens l.marks) :
    ((l.waiting p).push f).join .or =
      .ok (l.waiting { alternatives := p.conjunction f :: p.alternatives }) := by
  have hfold := foldAnds_run (join_not_mem_head_replicate h p.alternatives.length)
    (p.alternatives ++ l.operands) [] f p.terms
  rw [List.append_nil] at hfold
  simp only [join, waiting, push, Pending.marks, Pending.operands, List.append_assoc, hfold]
  rfl

theorem closeGroup_waiting (h : Opens l.marks) (position : Nat) :
    ((l.waiting p).push f).closeGroup position = (l.push (p.join f)).closeGroup position := by
  simp only [closeGroup, waiting, push, foldRuns_pending h]

theorem finish_waiting (h : Opens l.marks) :
    ((l.waiting p).push f).finish = (l.push (p.join f)).finish := by
  simp only [finish, waiting, push, foldRuns_pending h]

/-! ### Operands that are due -/

/-- A level without open runs: a group has just been opened, or nothing has been read. -/
structure Base (l : Level) : Prop where
  opens : Opens l.marks
  empty : l.marks = [] → l.operands = []

theorem foldRun_length {j : Junction} {members operands operands' : List Filter}
    (h : foldRun j members operands = .ok operands') : operands'.length = operands.length := by
  obtain ⟨⟨first, rest⟩, hpop, h⟩ := Text.bind_eq_ok_iff.mp h
  obtain ⟨joined, -, h⟩ := Text.bind_eq_ok_iff.mp h
  cases h
  cases operands with
  | nil => cases hpop
  | cons f operands => cases hpop; rfl

theorem endRun_length {run : Run} {operands operands' : List Filter}
    (h : endRun run operands = .ok operands') : operands'.length = operands.length := by
  cases run with
  | none => cases h; rfl
  | some r => exact foldRun_length h

/-- Where no group is open, folding takes one operand for each junction. -/
theorem foldRuns_length {run : Run} {marks marks' : List Mark} {operands operands' : List Filter}
    (h : foldRuns run marks operands = .ok (none, marks', operands')) :
    operands'.length + marks.length = operands.length := by
  fun_induction foldRuns run marks operands with
  | case1 =>
      -- no marks are left
      obtain ⟨ended, hend, h⟩ := Text.bind_eq_ok_iff.mp h
      cases h
      exact endRun_length hend
  | case2 =>
      -- a group would be given back
      obtain ⟨ended, hend, h⟩ := Text.bind_eq_ok_iff.mp h
      cases h
  | case3 operands marks j members ih =>
      -- the run goes on
      obtain ⟨⟨f, rest⟩, hpop, h⟩ := Text.bind_eq_ok_iff.mp h
      obtain rfl := pop_eq_ok_iff.mp hpop
      exact congrArg Nat.succ (ih f rest h)
  | case4 operands marks j k members hne ih =>
      -- the other junction ends the run and starts one
      obtain ⟨folded, hfold, h⟩ := Text.bind_eq_ok_iff.mp h
      obtain ⟨⟨f, rest⟩, hpop, h⟩ := Text.bind_eq_ok_iff.mp h
      obtain rfl := pop_eq_ok_iff.mp hpop
      rw [← foldRun_length hfold]
      exact congrArg Nat.succ (ih f rest h)
  | case5 operands marks j ih =>
      -- a junction starts the first run
      obtain ⟨⟨f, rest⟩, hpop, h⟩ := Text.bind_eq_ok_iff.mp h
      obtain rfl := pop_eq_ok_iff.mp hpop
      exact congrArg Nat.succ (ih f rest h)

/-- Folding a run of `and` takes its marks off, and all of them. -/
theorem foldAnds_marks {members : List Filter} {marks marks' : List Mark}
    {operands operands' : List Filter}
    (h : foldAnds members marks operands = .ok (marks', operands')) :
    ∃ n, marks = List.replicate n (.join .and) ++ marks' ∧ .join .and ∉ marks'.head? := by
  have hnone {marks : List Mark}
      (hother : ∀ below, marks = .join .and :: below → False) : .join .and ∉ marks.head? := by
    intro hhead
    obtain ⟨below, rfl⟩ := List.head?_eq_some_iff.mp hhead
    exact hother below rfl
  fun_induction foldAnds members marks operands with
  | case1 members marks operands ih =>
      obtain ⟨⟨f, rest⟩, hpop, h⟩ := Text.bind_eq_ok_iff.mp h
      obtain ⟨n, rfl, hhead⟩ := ih f rest h
      exact ⟨n + 1, rfl, hhead⟩
  | case2 members marks operands hother =>
      cases h
      exact ⟨0, rfl, hnone hother⟩
  | case3 members marks operands hother =>
      obtain ⟨folded, hfold, h⟩ := Text.bind_eq_ok_iff.mp h
      cases h
      exact ⟨0, rfl, hnone hother⟩

/-- Folding takes off the junctions on top of the marks, and the group below them if there is one;
else nothing is left of the marks. -/
theorem foldRuns_marks {run : Run} {group : Option Bool} {marks marks' : List Mark}
    {operands operands' : List Filter}
    (h : foldRuns run marks operands = .ok (group, marks', operands')) :
    ∃ js : List Junction, marks = js.map .join ++ ((group.map .group).toList ++ marks') ∧
      (group = none → marks' = []) := by
  fun_induction foldRuns run marks operands with
  | case1 =>
      obtain ⟨ended, hend, h⟩ := Text.bind_eq_ok_iff.mp h
      cases h
      exact ⟨[], rfl, fun _ => rfl⟩
  | case2 =>
      obtain ⟨ended, hend, h⟩ := Text.bind_eq_ok_iff.mp h
      cases h
      exact ⟨[], rfl, nofun⟩
  | case3 operands marks j members ih =>
      obtain ⟨⟨f, rest⟩, hpop, h⟩ := Text.bind_eq_ok_iff.mp h
      obtain ⟨js, rfl, hnone⟩ := ih f rest h
      exact ⟨j :: js, rfl, hnone⟩
  | case4 operands marks j k members hne ih =>
      obtain ⟨folded, hfold, h⟩ := Text.bind_eq_ok_iff.mp h
      obtain ⟨⟨f, rest⟩, hpop, h⟩ := Text.bind_eq_ok_iff.mp h
      obtain ⟨js, rfl, hnone⟩ := ih f rest h
      exact ⟨_ :: js, rfl, hnone⟩
  | case5 operands marks j ih =>
      obtain ⟨⟨f, rest⟩, hpop, h⟩ := Text.bind_eq_ok_iff.mp h
      obtain ⟨js, rfl, hnone⟩ := ih f rest h
      exact ⟨_ :: js, rfl, hnone⟩

/-- Where a filter ends, the marks are junctions, and folding leaves the filter on top. -/
theorem finish_cases {f : Filter} (h : l.finish = .ok f) :
    ∃ (js : List Junction) (rest : List Filter), l.marks = js.map .join ∧
      rest.length + 1 + js.length = l.operands.length ∧
        foldRuns none l.marks l.operands = .ok (none, [], f :: rest) := by
  obtain ⟨⟨group, marks, operands⟩, hfold, h⟩ := Text.bind_eq_ok_iff.mp h
  cases group with
  | some negated => cases h
  | none =>
      obtain ⟨⟨g, rest⟩, hpop, h⟩ := Text.bind_eq_ok_iff.mp h
      cases h
      obtain rfl := pop_eq_ok_iff.mp hpop
      obtain ⟨js, hmarks, hnone⟩ := foldRuns_marks hfold
      obtain rfl := hnone rfl
      have hlength := foldRuns_length hfold
      replace hmarks : l.marks = js.map .join := hmarks.trans (List.append_nil _)
      rw [hmarks, List.length_map, List.length_cons] at hlength
      exact ⟨js, rest, hmarks, hlength, hfold⟩

/-- A filter does not end where an operand is due. -/
theorem finish_waiting_ne_ok (hl : l.Base) {g : Filter} : (l.waiting p).finish ≠ .ok g := by
  intro h
  obtain ⟨js, rest, hjs, hlength, -⟩ := finish_cases h
  replace hjs : p.marks ++ l.marks = js.map .join := hjs
  have hmarks : l.marks = [] := by
    cases hm : l.marks with
    | nil => rfl
    | cons m marks =>
        have hmem : m ∈ js.map Mark.join := hjs ▸ List.mem_append_right _ (by simp [hm])
        obtain ⟨j, -, rfl⟩ := List.mem_map.mp hmem
        exact absurd (by simp [hm]) (hl.opens j)
  -- there are as many operands as junctions, so that folding leaves none
  have hjunctions : p.terms.length + p.alternatives.length = js.length := by
    simpa [Pending.marks, hmarks] using congrArg List.length hjs
  have hoperands : rest.length + 1 + js.length = p.terms.length + p.alternatives.length := by
    simpa [waiting, Pending.operands, hl.empty hmarks] using hlength
  omega

/-! ### Groups -/

/-- The filter of a group, `not` in front of it or not. -/
def grouped : Bool → Filter → Filter
  | false, f => f
  | true, f => .not f

/-- The level inside a group that is opened on it. -/
def opened (l : Level) (negated : Bool) : Level :=
  { l with openGroups := l.openGroups + 1, marks := .group negated :: l.marks }

@[simp] theorem nesting_opened (negated : Bool) : (l.opened negated).nesting = l.nesting + 1 := rfl

theorem base_opened (negated : Bool) : (l.opened negated).Base :=
  ⟨opens_group negated l.marks, fun h => nomatch h⟩

theorem openGroup_eq (limits : Limits) (negated : Bool) :
    l.openGroup limits negated =
      if limits.maxDepth ≤ l.nesting then .error (.nestingTooDeep limits.maxDepth)
      else .ok (l.opened negated) :=
  rfl

/-- Closing a group gives it to the level around it as an operand. -/
theorem closeGroup_opened (negated : Bool) (position : Nat) :
    ((l.opened negated).push f).closeGroup position = .ok (l.push (grouped negated f)) := by
  cases negated <;> rfl

/-- There is no group to close in a level without marks. -/
theorem closeGroup_unopened (h : l.marks = []) (position : Nat) :
    (l.push f).closeGroup position = .error (.unmatchedCloseParen position) := by
  simp only [closeGroup, push, h]
  rfl

/-- What closing a group does: what folding leaves is kept, and the filter of the group may be
negated. -/
theorem closeGroup_cases {l' : Level} {position : Nat} (h : l.closeGroup position = .ok l') :
    ∃ negated marks operands operands',
      foldRuns none l.marks l.operands = .ok (some negated, marks, operands) ∧
        (operands' = operands ∨ ∃ f rest, operands = f :: rest ∧ operands' = .not f :: rest) ∧
          l' = { l with openGroups := l.openGroups - 1, marks, operands := operands' } := by
  obtain ⟨⟨group, marks, operands⟩, hfold, h⟩ := Text.bind_eq_ok_iff.mp h
  match group with
  | none => cases h
  | some false =>
      cases h
      exact ⟨_, _, _, _, hfold, .inl rfl, rfl⟩
  | some true =>
      obtain ⟨⟨f, rest⟩, hpop, h⟩ := Text.bind_eq_ok_iff.mp h
      cases h
      exact ⟨_, _, _, _, hfold, .inr ⟨f, rest, pop_eq_ok_iff.mp hpop, rfl⟩, rfl⟩

/-! ### What folding fails for -/

/-- A run that is being folded has an operand. -/
def Met (run : Run) : Prop :=
  ∀ r ∈ run, r.2 ≠ []

theorem met_none : Met none := by
  intro r hr
  cases hr

theorem met_cons (j : Junction) (f : Filter) (members : List Filter) :
    Met (some (j, f :: members)) := by
  rintro r ⟨⟩
  exact List.cons_ne_nil f members

/-- An operand is missing. -/
def Starved (e : Error) : Prop :=
  e = .unexpectedEndOfFilter

theorem pop_refuses (operands : List Filter) : RefusesFor Starved (pop operands) := by
  cases operands with
  | nil => exact refusesFor_error rfl
  | cons f fs => exact refusesFor_ok _

/-- The operands of a run with a member are two at least. -/
theorem foldRun_refuses (j : Junction) {members : List Filter} (hmembers : members ≠ [])
    (operands : List Filter) : RefusesFor Starved (foldRun j members operands) := by
  obtain ⟨g, members, rfl⟩ := List.exists_cons_of_ne_nil hmembers
  refine (pop_refuses operands).bind ?_
  rintro ⟨first, rest⟩ -
  simp only [joinAll_two]
  exact refusesFor_ok _

theorem foldAnds_refuses (members : List Filter) (marks : List Mark) (operands : List Filter) :
    RefusesFor Starved (foldAnds members marks operands) := by
  fun_induction foldAnds members marks operands with
  | case1 members marks operands ih =>
      exact (pop_refuses operands).bind fun found _ => ih found.1 found.2
  | case2 => exact refusesFor_ok _
  | case3 members marks operands _ hmembers =>
      have hne : members ≠ [] := by simpa using hmembers
      exact (foldRun_refuses .and hne operands).bind fun _ _ => refusesFor_ok _

theorem endRun_refuses {run : Run} (hrun : Met run) (operands : List Filter) :
    RefusesFor Starved (endRun run operands) := by
  cases run with
  | none => exact refusesFor_ok _
  | some r => exact foldRun_refuses r.1 (hrun r rfl) operands

/-- **Folding fails for want of operands only.** -/
theorem foldRuns_refuses {run : Run} (hrun : Met run) (marks : List Mark)
    (operands : List Filter) : RefusesFor Starved (foldRuns run marks operands) := by
  fun_induction foldRuns run marks operands with
  | case1 run operands => exact (endRun_refuses hrun operands).bind fun _ _ => refusesFor_ok _
  | case2 run negated marks operands =>
      exact (endRun_refuses hrun operands).bind fun _ _ => refusesFor_ok _
  | case3 marks operands j members ih =>
      refine (pop_refuses operands).bind fun found _ => ?_
      exact ih found.1 found.2 (met_cons j found.1 members)
  | case4 j marks operands k members _ ih =>
      refine (foldRun_refuses k (hrun _ rfl) operands).bind fun folded _ => ?_
      exact (pop_refuses folded).bind fun found _ => ih found.1 found.2 (met_cons j found.1 [])
  | case5 j marks operands ih =>
      exact (pop_refuses operands).bind fun found _ => ih found.1 found.2 (met_cons j found.1 [])

end Level

end ScimQuery
