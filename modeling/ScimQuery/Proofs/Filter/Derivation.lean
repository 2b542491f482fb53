import ScimQuery.Proofs.Filter.Atoms
import ScimQuery.Proofs.Filter.Prefix
import ScimQuery.Proofs.Path.Dotted

/-!
# Filter — what a filter is made of

From a state of reading on, a filter is made of atoms if these are the atoms of phrases, each of
which the state takes in (`Reading.Derives`).  Derivations know of no places: the bracket of a value
filter that is open may stand anywhere (`Reading.unplaced`), for places only matter to errors
(`Reading.step_unplaced`).

* `Reading.Sound.run_cases`: a run that succeeds ends, or takes in a phrase and goes on.
* `Reading.Sound.derives`, `Reading.Derives.run`: from it, by induction, what is read is made of the
  atoms of its text, and a text of such atoms is read as the filter.
* `parseFilterChars_eq_ok_iff`: the texts of a filter.
-/

namespace ScimQuery

open Text (Atom Cursor atoms)

/-! ### States of reading without their places -/

namespace Level

variable {l : Level}

/-- The level, wherever its bracket stands: its place is 0. -/
def unplaced (l : Level) : Level :=
  { l with bracket := l.bracket.map fun _ => 0 }

@[simp] theorem region_unplaced : l.unplaced.region = l.region := by
  cases l with
  | mk bracket => cases bracket <;> rfl

theorem join_cases {l' : Level} {j : Junction} (h : l.join j = .ok l') :
    l'.operandDue = true ∧ l'.region = l.region := by
  cases j with
  | and =>
      cases h
      exact ⟨rfl, rfl⟩
  | or =>
      obtain ⟨folded, -, h⟩ := Text.bind_eq_ok_iff.mp h
      cases h
      exact ⟨rfl, rfl⟩

theorem openGroup_unplaced (limits : Limits) (negated : Bool) :
    l.unplaced.openGroup limits negated = unplaced <$> l.openGroup limits negated := by
  unfold openGroup
  change (if limits.maxDepth ≤ l.nesting then _ else _) = _
  split <;> rfl

theorem closeGroup_unplaced (position : Nat) :
    (l.unplaced.closeGroup 0).toOption = (l.closeGroup position).toOption.map unplaced := by
  unfold closeGroup unplaced
  cases foldRuns none l.marks l.operands with
  | error e => rfl
  | ok folded =>
      obtain ⟨group, marks, operands⟩ := folded
      match group with
      | none => rfl
      | some false => rfl
      | some true => cases operands <;> rfl

theorem join_unplaced (j : Junction) : l.unplaced.join j = unplaced <$> l.join j := by
  cases j with
  | and => rfl
  | or =>
      unfold join unplaced
      cases foldAnds [] l.marks l.operands <;> rfl

end Level

/-- The state of reading, wherever the brackets stand. -/
def Reading.unplaced (r : Reading) : Reading :=
  ⟨r.level.unplaced, r.outer.map (Prod.map id Level.unplaced)⟩

/-- What a phrase leads to, wherever the brackets stand. -/
def Progress.unplaced : Progress → Progress
  | .more r => .more r.unplaced
  | .done f => .done f

namespace Reading

variable {limits : Limits} {r r' : Reading} {phrase : Phrase}

@[simp] theorem level_unplaced : r.unplaced.level = r.level.unplaced := rfl

theorem openValue_unplaced (path : Path) (position : Nat) :
    r.unplaced.openValue limits path 0 = unplaced <$> r.openValue limits path position := by
  unfold openValue
  change (if limits.maxDepth ≤ r.level.nesting then _ else _) = _
  split <;> rfl

/-- **A step does not depend on places**, but for those in its errors. -/
theorem step_unplaced (phrase : Phrase) :
    (r.unplaced.step limits phrase.unplaced).toOption =
      (r.step limits phrase).toOption.map Progress.unplaced := by
  obtain ⟨l, outer⟩ := r
  cases phrase with
  | operand f => rfl
  | openGroup negated =>
      simp only [Phrase.unplaced, step, unplaced, Level.openGroup_unplaced]
      cases l.openGroup limits negated <;> rfl
  | closeGroup position =>
      simp only [Phrase.unplaced, step, unplaced, Text.toOption_bind,
        l.closeGroup_unplaced position]
      cases l.closeGroup position <;> rfl
  | join j =>
      simp only [Phrase.unplaced, step, unplaced, Level.join_unplaced]
      cases l.join j <;> rfl
  | openValue path position =>
      simp only [Phrase.unplaced, step, openValue_unplaced path position]
      cases openValue ⟨l, outer⟩ limits path position <;> rfl
  | closeValue =>
      have hfinish : l.unplaced.finish = l.finish := rfl
      simp only [Phrase.unplaced, step, closeValue, unplaced, hfinish]
      cases l.finish with
      | error e => rfl
      | ok f => cases outer <;> rfl

theorem finish_unplaced : r.unplaced.finish.toOption = r.finish.toOption := by
  obtain ⟨⟨bracket⟩, outer⟩ := r
  cases bracket <;> rfl

/-! ### Derivations -/

/-- From a state of reading on, the filter is made of atoms: they are those of phrases, each of
which the reading takes in. -/
inductive Derives (limits : Limits) (f : Filter) : Reading → List Atom → Prop where
  | ended {r : Reading} : r.finish = .ok f → Derives limits f r []
  | phrase {r r' : Reading} {phrase : Phrase} {as bs : List Atom} :
      phrase.MadeOf r.level.region r.level.operandDue as →
        r.step limits phrase = .ok (.more r') → Derives limits f r' bs →
          Derives limits f r (as ++ bs)

variable {f : Filter} {as : List Atom} {c after : Cursor}

theorem Derives.startsWith (h : Derives limits f r as) :
    ∀ a ∈ as.head?, Phrase.StartsWith r.level.region r.level.operandDue a := by
  cases h with
  | ended => simp
  | phrase hphrase =>
      obtain ⟨a, as, rfl, hstarts⟩ := hphrase.startsWith
      rintro b ⟨⟩
      exact hstarts

/-- What may come next behind a phrase is what may come next in the state that it leads to. -/
theorem before_of_step (hstep : r.step limits phrase = .ok (.more r'))
    (h : ∀ a ∈ as.head?, Phrase.StartsWith r'.level.region r'.level.operandDue a) :
    phrase.Before r.level.region as := by
  cases phrase with
  | operand g =>
      cases hstep
      exact h
  | join j =>
      obtain ⟨l, hjoin, hstep⟩ := Text.bind_eq_ok_iff.mp hstep
      cases hstep
      obtain ⟨hdue, hregion⟩ := Level.join_cases hjoin
      change ∀ a ∈ as.head?, Phrase.StartsWith l.region l.operandDue a at h
      rwa [hdue, hregion] at h
  | _ => trivial

/-- The filter that is read has no brackets around it. -/
theorem Sound.step_ne_done {g : Filter} {due : Bool} (hr : r.Sound 0)
    (hread : Phrase.Reads r.level.region due c phrase after) :
    r.step limits phrase ≠ .ok (.done g) := by
  intro hstep
  obtain ⟨rfl, houter, -⟩ := step_eq_done_iff.mp hstep
  cases hread with
  | closeValue htoken =>
      obtain ⟨path, suspended, outer, hsuspended⟩ := hr.exists_outer (Token.read_closeBracket htoken)
      rw [houter] at hsuspended
      cases hsuspended

/-- A filter is read up to the end of the text, or takes in a phrase. -/
theorem Sound.run_cases (hr : r.Sound 0) (h : r.run limits c = .ok (f, after)) :
    (Token.read r.level.region c = .ok none ∧ r.finish = .ok f) ∨
    ∃ phrase next r', Phrase.Reads r.level.region r.level.operandDue c phrase next ∧
      r.step limits phrase = .ok (.more r') ∧ r'.Sound 0 ∧ r'.run limits next = .ok (f, after) := by
  cases hread : Phrase.read r.level.region r.level.operandDue c with
  | error e =>
      rw [run_error hread] at h
      cases h
  | ok found =>
      rcases found with _ | ⟨phrase, next⟩
      · have hend := Phrase.read_eq_none_iff.mp hread
        rw [run_end hend] at h
        obtain ⟨f', hfinish, h⟩ := Text.bind_eq_ok_iff.mp h
        cases h
        exact .inl ⟨hend, hfinish⟩
      · have hreads := Phrase.read_eq_some_iff.mp hread
        rw [run_phrase hread] at h
        obtain ⟨progress, hstep, h⟩ := Text.bind_eq_ok_iff.mp h
        cases progress with
        | done g => exact (hr.step_ne_done hreads hstep).elim
        | more r' => exact .inr ⟨phrase, next, r', hreads, hstep, hr.step rfl hreads hstep, h⟩

/-- Where reading succeeds, the next atom is one that may come next. -/
theorem Sound.startsWith (hr : r.Sound 0) (h : r.run limits c = .ok (f, after)) :
    ∀ a ∈ (atoms c.rest).head?, Phrase.StartsWith r.level.region r.level.operandDue a := by
  rcases hr.run_cases h with ⟨hend, -⟩ | ⟨phrase, next, r', hreads, -⟩
  · rw [Token.atoms_of_read_none hend]
    simp
  · obtain ⟨a, as, hatoms, hstarts⟩ := hreads.startsWith
    rw [hatoms]
    rintro b ⟨⟩
    exact hstarts

/-- The phrase that is taken in stands in the text with its atoms. -/
theorem Sound.madeOf {next : Cursor} (hr' : r'.Sound 0)
    (hreads : Phrase.Reads r.level.region r.level.operandDue c phrase next)
    (hstep : r.step limits phrase = .ok (.more r')) (h : r'.run limits next = .ok (f, after)) :
    ∃ as, phrase.unplaced.MadeOf r.level.region r.level.operandDue as ∧
      atoms c.rest = as ++ atoms next.rest :=
  hreads.madeOf (before_of_step hstep (hr'.startsWith h))

/-- **What is read is made of the atoms of its text.** -/
theorem Sound.derives {r : Reading} {c : Cursor} (hr : r.Sound 0)
    (h : r.run limits c = .ok (f, after)) : Derives limits f r.unplaced (atoms c.rest) := by
  rcases hr.run_cases h with ⟨hend, hfinish⟩ | ⟨phrase, next, r', hreads, hstep, hr', hrest⟩
  · rw [Token.atoms_of_read_none hend]
    refine .ended ?_
    rw [← Text.toOption_eq_some_iff, finish_unplaced, hfinish]
    rfl
  · have := Phrase.read_length (Phrase.read_eq_some_iff.mpr hreads)
    obtain ⟨as, hmade, hatoms⟩ := hr'.madeOf hreads hstep hrest
    rw [← Level.region_unplaced, ← level_unplaced] at hmade
    have hunplaced : r.unplaced.step limits phrase.unplaced = .ok (.more r'.unplaced) := by
      rw [← Text.toOption_eq_some_iff, step_unplaced, hstep]
      rfl
    rw [hatoms]
    exact .phrase hmade hunplaced (hr'.derives hrest)
termination_by c.rest.length

/-- **A text of the atoms that a filter is made of is read as the filter.** -/
theorem Derives.run {r₀ : Reading} (h : Derives limits f r₀ as) (hr : r.unplaced = r₀)
    (hc : atoms c.rest = as) : ∃ after, r.run limits c = .ok (f, after) := by
  induction h generalizing r c with
  | ended hfinish =>
      subst hr
      rw [← Text.toOption_eq_some_iff, finish_unplaced, Text.toOption_eq_some_iff] at hfinish
      have hend : Token.read r.level.region c = .ok none := Token.read_none_of_atoms hc
      exact ⟨_, by rw [run_end hend, hfinish]; rfl⟩
  | @phrase _ r₁ phrase as bs hphrase hstep hrest ih =>
      subst hr
      obtain ⟨phrase, next, hreads, rfl, hnext⟩ :=
        hphrase.reads (before_of_step hstep hrest.startsWith) hc
      have hread := Phrase.read_eq_some_iff.mpr hreads
      rw [level_unplaced, Level.region_unplaced] at hread
      rw [← Text.toOption_eq_some_iff, step_unplaced, Option.map_eq_some_iff] at hstep
      obtain ⟨progress, hstep, hprogress⟩ := hstep
      cases progress with
      | done g => cases hprogress
      | more r' =>
          cases hprogress
          obtain ⟨after, hafter⟩ := ih rfl hnext
          rw [Text.toOption_eq_some_iff] at hstep
          refine ⟨after, ?_⟩
          rw [run_phrase hread, hstep]
          exact hafter

end Reading

/-! ### Whole texts -/

/-- Reading starts behind the blanks in front of a text. -/
theorem exists_run_of_parse {limits : Limits} {text : List Char} {f : Filter}
    (h : parseFilterChars limits text = .ok f) :
    ∃ k after, Reading.start.run limits ⟨k, Text.strip text⟩ = .ok (f, after) := by
  obtain ⟨c, hopen, h⟩ := Text.bind_eq_ok_iff.mp h
  obtain ⟨⟨g, after⟩, hrun, h⟩ := Text.bind_eq_ok_iff.mp h
  cases h
  obtain ⟨rfl, -⟩ := openText_eq_ok hopen
  exact ⟨_, after, hrun⟩

/-- **The texts of a filter** are those of the atoms that it is made of. -/
theorem parseFilterChars_eq_ok_iff {d : Nat} {text : List Char} {f : Filter} :
    parseFilterChars { maxDepth := d } text = .ok f ↔
      Reading.Derives { maxDepth := d } f .start (atoms (Text.strip text)) := by
  constructor
  · intro h
    obtain ⟨k, after, hrun⟩ := exists_run_of_parse h
    exact Reading.sound_start.derives hrun
  · intro h
    obtain ⟨c, hopen, hrest⟩ : ∃ c, openText { maxDepth := d } text = .ok c ∧
        c.rest = Text.strip text := ⟨_, rfl, rfl⟩
    have hstart : Reading.start.unplaced = .start := rfl
    obtain ⟨after, hrun⟩ := h.run hstart (congrArg atoms hrest)
    refine Text.bind_eq_ok_iff.mpr ⟨c, hopen, ?_⟩
    exact Text.bind_eq_ok_iff.mpr ⟨(f, after), hrun, rfl⟩

end ScimQuery
