import Mathlib.Data.List.Chain
import ScimQuery.Proofs.Filter.Items
import ScimQuery.Proofs.Filter.Prefix
import ScimQuery.Proofs.Filter.Refusal
import ScimQuery.Proofs.Parse.Stations

/-!
# Filter — the discipline of the stacks

At every station of reading, the stacks of each level are in discipline (`Level.Disciplined`): the
operands are as many as the junctions, and one more behind an operand; the groups that are counted
are those among the marks, as many as the limit allows; and no `or` lies above an `and` of its
group.  So behind an operand nothing fails for want of one (`Level.Folds`), and a filter that ends
leaves nothing on the stacks.

* `Level.Tidy.join`, `Level.Tidy.closeGroup`, `Reading.Tidy.step`: what each phrase keeps, besides
  the balance that `Reading.Sound` tells of.
* `Reading.Sound.exists_end`: what has been read comes from a station where a level ends.
* `reading_discipline`: all of it, at every station of every text.
-/

namespace ScimQuery

open Relation (ReflTransGen)
open Station (Next)
open Text (Cursor RefusesFor)

/-! ### Marks -/

namespace Level

variable {limits : Limits} {l l' : Level} {marks marks' : List Mark}
  {operands operands' : List Filter}

/-- The marks may lie above each other: an `and` is not right below an `or`. -/
def Ordered (marks : List Mark) : Prop :=
  marks.IsChain fun m n => m = .join .or → n ≠ .join .and

theorem Ordered.cons {m : Mark} (h : Ordered marks) (hm : m = .join .or → .join .and ∉ marks.head?) :
    Ordered (m :: marks) := by
  refine List.isChain_cons.mpr ⟨?_, h⟩
  rintro n hn hor rfl
  exact hm hor hn

/-- An `and` is below an `or` only if a group lies between them. -/
theorem Ordered.exists_group {between below : List Mark}
    (h : Ordered (.join .or :: (between ++ .join .and :: below))) : ∃ m ∈ between, m.isGroup := by
  induction between with
  | nil => exact absurd rfl ((List.isChain_cons_cons.mp h).1 rfl)
  | cons m between ih =>
      obtain ⟨hm, hrest⟩ := List.isChain_cons_cons.mp h
      cases m with
      | group negated => exact ⟨_, List.mem_cons_self, rfl⟩
      | join j =>
          cases j with
          | and => exact absurd rfl (hm rfl)
          | or =>
              obtain ⟨m, hmem, hgroup⟩ := ih hrest
              exact ⟨m, List.mem_cons_of_mem _ hmem, hgroup⟩

/-- The level is as deep as the limit allows, and its marks lie in order. -/
structure Tidy (limits : Limits) (l : Level) : Prop where
  nesting : l.nesting ≤ limits.maxDepth
  ordered : Ordered l.marks

theorem Tidy.join (h : l.Tidy limits) {j : Junction} (hjoin : l.join j = .ok l') :
    l'.Tidy limits := by
  cases j with
  | and =>
      cases hjoin
      exact ⟨h.nesting, h.ordered.cons nofun⟩
  | or =>
      obtain ⟨⟨marks, operands⟩, hfold, hjoin⟩ := Text.bind_eq_ok_iff.mp hjoin
      cases hjoin
      obtain ⟨n, hmarks, hhead⟩ := foldAnds_marks hfold
      have hordered : Ordered marks := h.ordered.suffix ⟨_, hmarks.symm⟩
      exact ⟨h.nesting, hordered.cons fun _ => hhead⟩

theorem Tidy.closeGroup (h : l.Tidy limits) {position : Nat}
    (hclose : l.closeGroup position = .ok l') : l'.Tidy limits := by
  obtain ⟨negated, marks, operands, operands', hfold, -, rfl⟩ := closeGroup_cases hclose
  obtain ⟨js, hmarks, -⟩ := foldRuns_marks hfold
  rw [← List.append_assoc] at hmarks
  constructor
  case nesting => exact Nat.le_trans (Nat.add_le_add_left (Nat.sub_le _ 1) _) h.nesting
  case ordered => exact h.ordered.suffix ⟨_, hmarks.symm⟩

/-- The levels around another one count their groups, too. -/
theorem Stacked.tracked_outer {base : Nat} {outer : List (Path × Level)}
    (h : Stacked base l outer) : ∀ e ∈ outer, e.2.Tracked := by
  induction h with
  | outermost => simp
  | inside _ _ houter ih =>
      intro e he
      rcases List.mem_cons.mp he with rfl | he
      · exact houter.tracked
      · exact ih e he

/-! ### What may be done behind an operand -/

/-- The stacks of a level between two phrases. -/
structure Disciplined (limits : Limits) (l : Level) : Prop where
  /-- There are as many operands as junctions, and one more where none is due. -/
  operands : l.operands.length = junctions l.marks + if l.operandDue then 0 else 1
  /-- The groups that are counted are those among the marks. -/
  groups : l.openGroups = l.marks.countP Mark.isGroup
  nesting : l.depth + l.openGroups ≤ limits.maxDepth
  /-- An `and` is below an `or` only if a group lies between them. -/
  ordered : ∀ above between below,
    l.marks = above ++ .join .or :: (between ++ .join .and :: below) → ∃ m ∈ between, m.isGroup

/-- What may be done with a level behind an operand. -/
structure Folds (l : Level) : Prop where
  ands : ∃ marks operands, foldAnds [] l.marks l.operands = .ok (marks, operands)
  /-- Folding comes to a group where one is open, and leaves an operand. -/
  runs : ∃ group marks operands, foldRuns none l.marks l.operands = .ok (group, marks, operands) ∧
    operands ≠ [] ∧ (group = none ↔ l.openGroups = 0)
  join : ∀ j, ∃ l', l.join j = .ok l'
  closeGroup : ∀ position, l.openGroups ≠ 0 →
    ∃ l', l.closeGroup position = .ok l' ∧ l'.openGroups + 1 = l.openGroups
  closeGroup_error : ∀ position, l.openGroups = 0 →
    l.closeGroup position = .error (.unmatchedCloseParen position)
  finish : (∃ f, l.finish = .ok f) ↔ l.openGroups = 0

theorem Balanced.folds (h : l.Balanced) (htracked : l.Tracked) (hdue : l.operandDue = false) :
    l.Folds := by
  have hlength := h.length hdue
  obtain ⟨group, marks, operands, hfold, hgroup, hkept⟩ :=
    foldRuns_ok none l.marks l.operands met_none (by omega)
  have hopen : group = none ↔ l.openGroups = 0 := htracked.groups ▸ hgroup
  constructor
  case ands =>
    obtain ⟨marks, operands, hfold, -⟩ := foldAnds_ok [] l.marks l.operands (by omega)
    exact ⟨marks, operands, hfold⟩
  case runs =>
    refine ⟨group, marks, operands, hfold, ?_, hopen⟩
    rintro rfl
    rw [List.length_nil] at hkept
    omega
  case join =>
    intro j
    obtain ⟨l', hjoin, -⟩ := h.join_ok hdue j
    exact ⟨l', hjoin⟩
  case closeGroup =>
    intro position hgroups
    obtain ⟨l', hclose, -, -, -, hless⟩ := h.closeGroup_ok htracked hdue hgroups position
    exact ⟨l', hclose, by omega⟩
  case closeGroup_error =>
    intro position hgroups
    exact h.closeGroup_error htracked hdue hgroups position
  case finish =>
    refine ⟨?_, h.finish_ok htracked hdue⟩
    rintro ⟨f, hfinish⟩
    have hall := (h.finish_eq_ok hfinish).2
    rw [hfold] at hall
    cases hall
    exact hopen.mp rfl

end Level

/-! ### Readings -/

namespace Reading

variable {limits : Limits} {base : Nat} {r r' : Reading} {phrase : Phrase} {l : Level}

/-- The levels that are open, innermost first. -/
def levels (r : Reading) : List Level :=
  r.level :: r.outer.map Prod.snd

/-- All levels are tidy. -/
def Tidy (limits : Limits) (r : Reading) : Prop :=
  ∀ l ∈ r.levels, l.Tidy limits

theorem tidy_start : start.Tidy limits := by
  intro l hl
  obtain rfl := List.mem_singleton.mp hl
  exact ⟨Nat.zero_le _, .nil⟩

theorem tidy_within (hdepth : limits.maxDepth ≠ 0) (position : Nat) :
    Tidy limits ⟨{ bracket := some position, depth := 1 }, []⟩ := by
  intro l hl
  obtain rfl := List.mem_singleton.mp hl
  exact ⟨Nat.one_le_iff_ne_zero.mpr hdepth, .nil⟩

/-- **Each phrase keeps the levels tidy.** -/
theorem Tidy.step (hr : r.Tidy limits) (h : r.step limits phrase = .ok (.more r')) :
    r'.Tidy limits := by
  obtain ⟨hl, houter⟩ := List.forall_mem_cons.mp hr
  cases step_eq_more_iff.mp h with
  | operand => exact List.forall_mem_cons.mpr ⟨⟨hl.nesting, hl.ordered⟩, houter⟩
  | openGroup hlimit =>
      exact List.forall_mem_cons.mpr ⟨⟨hlimit, hl.ordered.cons nofun⟩, houter⟩
  | closeGroup hclose => exact List.forall_mem_cons.mpr ⟨hl.closeGroup hclose, houter⟩
  | join hjoin => exact List.forall_mem_cons.mpr ⟨hl.join hjoin, houter⟩
  | openValue hlimit => exact List.forall_mem_cons.mpr ⟨⟨hlimit, .nil⟩, hr⟩
  | closeValue hfinish =>
      obtain ⟨haround, houter⟩ := List.forall_mem_cons.mp houter
      exact List.forall_mem_cons.mpr ⟨⟨haround.nesting, haround.ordered⟩, houter⟩

theorem sound_within (position : Nat) :
    Sound 1 ⟨{ bracket := some position, depth := 1 }, []⟩ := by
  refine ⟨.outermost ⟨rfl, by simp⟩ rfl, rfl, ?_⟩
  intro e he
  cases he

/-- Every level counts its groups and is in balance. -/
theorem Sound.of_mem_levels (hr : r.Sound base) (hl : l ∈ r.levels) : l.Tracked ∧ l.Balanced := by
  rcases List.mem_cons.mp hl with rfl | hl
  · exact ⟨hr.stacked.tracked, hr.level⟩
  · obtain ⟨e, he, rfl⟩ := List.mem_map.mp hl
    exact ⟨hr.stacked.tracked_outer e he, (hr.outer e he).1⟩

theorem Sound.disciplined (hr : r.Sound base) (htidy : r.Tidy limits) (hl : l ∈ r.levels) :
    l.Disciplined limits := by
  obtain ⟨htracked, hbalanced⟩ := hr.of_mem_levels hl
  constructor
  case operands => exact hbalanced
  case groups => exact htracked.groups
  case nesting => exact (htidy l hl).nesting
  case ordered =>
    intro above between below hmarks
    have hordered := (htidy l hl).ordered
    rw [hmarks] at hordered
    exact Level.Ordered.exists_group (hordered.suffix (List.suffix_append _ _))

/-- Nothing is suspended around a level without brackets. -/
theorem Sound.outer_eq_nil (hr : r.Sound base) (hbracket : r.level.bracket = none) :
    r.outer = [] := by
  obtain ⟨l, outer⟩ := r
  cases outer with
  | nil => rfl
  | cons e outer =>
      have hregion := hr.region_inside
      rw [Level.region, show l.bracket = none from hbracket] at hregion
      cases hregion

/-- **Reading that succeeds comes to a station where the outermost level ends**, and nothing has been
lost on the way. -/
theorem Sound.exists_end {r : Reading} {c after : Cursor} {f : Filter} (hr : r.Sound base)
    (h : r.run limits c = .ok (f, after)) :
    ∃ r' c', ReflTransGen (Next limits) (.phrase r c) (.phrase r' c') ∧ r'.outer = [] ∧
      r'.level.finish = .ok f ∧ f.items = r'.items := by
  cases hread : Phrase.read r.level.region r.level.operandDue c with
  | error e =>
      rw [run_error hread] at h
      cases h
  | ok found =>
      rcases found with _ | ⟨phrase, next⟩
      · rw [run_end (Phrase.read_eq_none_iff.mp hread)] at h
        obtain ⟨g, hfinish, h⟩ := Text.bind_eq_ok_iff.mp h
        cases h
        have hbracket := bracket_of_finish hfinish
        have houter := hr.outer_eq_nil hbracket
        have hlevel : r.level.finish = .ok f := by
          simpa only [finish, hbracket] using hfinish
        exact ⟨r, c, .refl, houter, hlevel, hr.finish_items houter hlevel⟩
      · have := Phrase.read_length hread
        rw [run_phrase hread] at h
        obtain ⟨progress, hstep, h⟩ := Text.bind_eq_ok_iff.mp h
        cases progress with
        | done g =>
            cases h
            obtain ⟨-, houter, hlevel⟩ := step_eq_done_iff.mp hstep
            exact ⟨r, c, .refl, houter, hlevel, hr.finish_items houter hlevel⟩
        | more r₁ =>
            have hr₁ := hr.step rfl (Phrase.read_eq_some_iff.mp hread) hstep
            obtain ⟨r', c', hreached, hend⟩ := hr₁.exists_end h
            exact ⟨r', c', .head (.phrase hread hstep) hreached, hend⟩
termination_by c.rest.length

end Reading

/-! ### Stations -/

namespace Reading

variable {limits : Limits} {text : String} {r : Reading} {c : Cursor}

theorem sound_of_reached (h : Station.Reached limits text (.phrase r c)) :
    ∃ base, r.Sound base := by
  refine h.invariant (P := fun r => ∃ base, r.Sound base) ⟨0, sound_start⟩ ?_ ?_
  · intro _ position
    exact ⟨1, sound_within position⟩
  · rintro r r' c next phrase ⟨base, hr⟩ hreads hstep
    exact ⟨base, hr.step rfl hreads hstep⟩

theorem tidy_of_reached (h : Station.Reached limits text (.phrase r c)) : r.Tidy limits :=
  h.invariant tidy_start tidy_within fun hr _ hstep => hr.step hstep

end Reading

/-- **The discipline of the stacks.**  At every station of a text, each level that is open is in
discipline; behind an operand, folding and closing succeed as the groups that are open say, and
folding never fails but for want of operands.  Where a filter ends, it is all that is left on the
stacks.  Each phrase adds its own items and no others, and a filter that has been read has those that
were taken in.  No text is refused for a junction of fewer than two operands. -/
theorem reading_discipline (limits : Limits) (text : String) :
    (∀ r c, Station.Reached limits text (.phrase r c) →
      (∀ l ∈ r.levels, l.Disciplined limits ∧ (l.operandDue = false → l.Folds) ∧
        RefusesFor Level.Starved (Level.foldAnds [] l.marks l.operands) ∧
        RefusesFor Level.Starved (Level.foldRuns none l.marks l.operands)) ∧
      (∀ f, r.level.finish = .ok f → r.level.operandDue = false ∧
        Level.foldRuns none r.level.marks r.level.operands = .ok (none, [], [f])) ∧
      (∀ phrase r', r.step limits phrase = .ok (.more r') → r'.items = r.items ++ phrase.items) ∧
      ∀ f after, r.run limits c = .ok (f, after) → ∃ r' c',
        ReflTransGen (Next limits) (.phrase r c) (.phrase r' c') ∧ r'.outer = [] ∧
          r'.level.finish = .ok f ∧ f.items = r'.items) ∧
    ∀ e, parseFilter limits text = .error e ∨ parsePath limits text = .error e →
      ∀ count, e ≠ .tooFewOperands count := by
  refine ⟨?_, fun e he => parse_joins he⟩
  intro r c hreached
  obtain ⟨base, hsound⟩ := Reading.sound_of_reached hreached
  have htidy := Reading.tidy_of_reached hreached
  refine ⟨?_, ?_, ?_, ?_⟩
  · intro l hl
    obtain ⟨htracked, hbalanced⟩ := hsound.of_mem_levels hl
    exact ⟨hsound.disciplined htidy hl, hbalanced.folds htracked, Level.foldAnds_refuses _ _ _,
      Level.foldRuns_refuses Level.met_none _ _⟩
  · intro f hfinish
    exact hsound.level.finish_eq_ok hfinish
  · intro phrase r' hstep
    exact hsound.step_items hstep
  · intro f after hrun
    exact hsound.exists_end hrun

/-- The last station of a text with groups and a value filter in it: three operands are left there,
and two junctions. -/
theorem reading_discipline_nested :
    ∃ r c f, Station.Reached {} "a pr or b[c pr and d eq 1] and not (e pr)" (.phrase r c) ∧
      r.level.Disciplined {} ∧ r.level.Folds ∧
      Level.foldRuns none r.level.marks r.level.operands = .ok (none, [], [f]) ∧
      f.items = r.items ∧ r.items.length = 5 := by
  have hparse : (parseFilter {} "a pr or b[c pr and d eq 1] and not (e pr)").toOption.map
      (fun f => f.items.length) = some 5 := by
    decide +kernel
  obtain ⟨f, hf, hitems⟩ := Option.map_eq_some_iff.mp hparse
  rw [Text.toOption_eq_some_iff] at hf
  obtain ⟨c, hopen, hf⟩ := Text.bind_eq_ok_iff.mp hf
  obtain ⟨⟨g, after⟩, hrun, hf⟩ := Text.bind_eq_ok_iff.mp hf
  cases hf
  obtain ⟨hstations, -⟩ := reading_discipline {} "a pr or b[c pr and d eq 1] and not (e pr)"
  obtain ⟨-, -, -, hends⟩ := hstations .start c ⟨c, hopen, .inl .refl⟩
  obtain ⟨r, c', hreached, -, hfinish, hkept⟩ := hends _ _ hrun
  have hlast : Station.Reached {} _ (.phrase r c') := ⟨c, hopen, .inl hreached⟩
  obtain ⟨hlevels, hempty, -, -⟩ := hstations r c' hlast
  obtain ⟨hdue, hfold⟩ := hempty _ hfinish
  obtain ⟨hlevel, hfolds, -⟩ := hlevels r.level List.mem_cons_self
  exact ⟨r, c', _, hlast, hlevel, hfolds hdue, hfold, hkept, hkept ▸ hitems⟩

end ScimQuery
