import ScimQuery.Proofs.Filter.Local
import ScimQuery.Proofs.Filter.Stuck

/-!
# Filter — what a filter is refused for

A run is refused for a phrase somewhere in the text, or for the groups and value filters that are
open where it ends (`Error.OfNesting`).

* `Reading.step_refuses`, `Reading.run_refuses`: a step, and a whole run.
* `parse_refuses`: no text is refused for a junction of fewer than two operands.
-/

namespace ScimQuery

open Text (Cursor RefusesFor refusesFor_ok refusesFor_error)

/-! ### Groups and value filters -/

/-- The cause is one of how groups and value filters are nested. -/
inductive Error.OfNesting : Error → Prop where
  | ended : OfNesting .unexpectedEndOfFilter
  | unmatched (position : Nat) : OfNesting (.unmatchedCloseParen position)
  | unclosed (position : Nat) : OfNesting (.unclosedBracket position)
  | tooDeep (max : Nat) : OfNesting (.nestingTooDeep max)

theorem Level.Starved.ofNesting {e : Error} (h : Level.Starved e) : e.OfNesting := by
  rw [Level.Starved] at h
  subst h
  exact .ended

namespace Level

variable (l : Level)

theorem openGroup_refuses (limits : Limits) (negated : Bool) :
    RefusesFor Error.OfNesting (l.openGroup limits negated) := by
  unfold openGroup
  split
  · exact refusesFor_error (.tooDeep _)
  · exact refusesFor_ok _

theorem closeGroup_refuses (position : Nat) :
    RefusesFor Error.OfNesting (l.closeGroup position) := by
  refine ((foldRuns_refuses met_none l.marks l.operands).mono fun _ => Starved.ofNesting).bind ?_
  rintro ⟨group, marks, operands⟩ -
  match group with
  | none => exact refusesFor_error (.unmatched position)
  | some false => exact refusesFor_ok _
  | some true =>
      exact ((pop_refuses operands).mono fun _ => Starved.ofNesting).bind fun _ _ => refusesFor_ok _

theorem join_refuses (j : Junction) : RefusesFor Error.OfNesting (l.join j) := by
  cases j with
  | and => exact refusesFor_ok _
  | or =>
      exact ((foldAnds_refuses [] l.marks l.operands).mono fun _ => Starved.ofNesting).bind
        fun _ _ => refusesFor_ok _

theorem finish_refuses : RefusesFor Error.OfNesting l.finish := by
  refine ((foldRuns_refuses met_none l.marks l.operands).mono fun _ => Starved.ofNesting).bind ?_
  rintro ⟨group, marks, operands⟩ -
  cases group with
  | none =>
      exact ((pop_refuses operands).mono fun _ => Starved.ofNesting).bind fun _ _ => refusesFor_ok _
  | some negated => exact refusesFor_error .ended

end Level

namespace Reading

variable {limits : Limits} {c : Cursor}

/-- **A step is refused for the nesting of the filter.** -/
theorem step_refuses (limits : Limits) (r : Reading) (phrase : Phrase) :
    RefusesFor Error.OfNesting (r.step limits phrase) := by
  cases phrase with
  | operand f => exact refusesFor_ok _
  | openGroup negated =>
      exact (r.level.openGroup_refuses limits negated).bind fun _ _ => refusesFor_ok _
  | closeGroup position =>
      exact (r.level.closeGroup_refuses position).bind fun _ _ => refusesFor_ok _
  | join j => exact (r.level.join_refuses j).bind fun _ _ => refusesFor_ok _
  | openValue path position =>
      refine RefusesFor.bind ?_ fun _ _ => refusesFor_ok _
      unfold openValue
      split
      · exact refusesFor_error (.tooDeep _)
      · exact refusesFor_ok _
  | closeValue =>
      refine r.level.finish_refuses.bind fun f _ => ?_
      split
      · exact refusesFor_ok _
      · exact refusesFor_ok _

theorem finish_refuses (r : Reading) : RefusesFor Error.OfNesting r.finish := by
  unfold finish
  split
  · exact refusesFor_error (.unclosed _)
  · exact r.level.finish_refuses

/-- The cause is a phrase at a place that is come to from `c`. -/
def RefusedPhrase (c : Cursor) (e : Error) : Prop :=
  ∃ region due w s, c.rest = w ++ s ∧
    Phrase.read region due ⟨c.position + w.length, s⟩ = .error e

/-- **A run is refused for its nesting, or for a phrase of the text.** -/
theorem run_refuses (limits : Limits) (r : Reading) (c : Cursor) :
    RefusesFor (fun e => e.OfNesting ∨ RefusedPhrase c e) (r.run limits c) := by
  fun_induction run limits r c with
  | case1 r c e herror =>
      exact refusesFor_error (.inr ⟨r.level.region, r.level.operandDue, [], c.rest, rfl, herror⟩)
  | case2 r c _ e herror => exact refusesFor_error (.inl (r.finish_refuses e herror))
  | case3 => exact refusesFor_ok _
  | case4 r c phrase _ _ _ e herror =>
      exact refusesFor_error (.inl (step_refuses limits r phrase e herror))
  | case5 => exact refusesFor_ok _
  | case6 r c phrase next hread _ r' hstep ih =>
      -- the phrase that is refused stands behind the one that was read
      refine ih.mono fun e he => he.imp_right ?_
      obtain ⟨v, -, hrest, hposition, -⟩ := (Phrase.read_eq_some_iff.mp hread).local
      rintro ⟨region, due, w, s, hnext, herror⟩
      refine ⟨region, due, v ++ w, s, ?_, ?_⟩
      · rw [hrest, hnext, List.append_assoc]
      · rwa [List.length_append, ← Nat.add_assoc, ← hposition]

end Reading

/-- What the text of a filter is refused for: its length, its nesting, or a phrase at a place of
it. -/
theorem parseFilter_refuses (limits : Limits) (text : String) :
    RefusesFor (fun e => (∃ length max, e = .inputTooLong length max) ∨ e.OfNesting ∨
      ∃ region due c, c.PlaceOf (Text.trimEnd text.toList) ∧ Phrase.read region due c = .error e)
      (parseFilter limits text) := by
  refine RefusesFor.bind ?_ fun c hopen => ?_
  · intro e he
    obtain ⟨max, -, -, rfl⟩ := openText_eq_error he
    exact .inl ⟨_, max, rfl⟩
  · refine ((Reading.run_refuses limits _ c).mono fun e he => .inr (he.imp_right ?_)).bind
      fun _ _ => refusesFor_ok _
    rintro ⟨region, due, w, s, hrest, hphrase⟩
    have hplace : Cursor.PlaceOf (Text.trimEnd text.toList) ⟨c.position, w ++ s⟩ := by
      rw [← hrest]
      exact placeOf_of_openText hopen
    exact ⟨region, due, _, hplace.append, hphrase⟩

/-! ### Junctions of fewer than two operands -/

/-- The cause is not that a junction has fewer than two operands. -/
def Error.NotOfJoining (e : Error) : Prop :=
  ∀ count, e ≠ .tooFewOperands count

theorem Reading.run_joins (limits : Limits) (r : Reading) (c : Cursor) :
    RefusesFor Error.NotOfJoining (r.run limits c) := by
  refine (run_refuses limits r c).mono ?_
  rintro _ (hnesting | ⟨region, due, w, s, -, herror⟩) count rfl
  · cases hnesting
  · -- a phrase is refused where a token stands, or for the end of the text
    obtain ⟨_, _, _, _, _, hstart | ⟨hend, -⟩⟩ := Phrase.read_stuck herror
    · cases hstart
    · cases hend

theorem Filter.readWithin_joins (limits : Limits) (opened : Nat) (c : Cursor) :
    RefusesFor Error.NotOfJoining (Filter.readWithin limits opened c) := by
  intro e he
  have hmap := Filter.map_readWithin limits opened c
  rw [he] at hmap
  split at hmap
  · cases hmap
    rintro count ⟨⟩
  · exact Reading.run_joins limits _ c e hmap.symm

namespace Path

theorem Piece.read_joins (c : Cursor) : RefusesFor Error.NotOfJoining (Piece.read c) := by
  unfold Piece.read
  dsimp only
  split
  · exact refusesFor_ok _
  · split
    · exact refusesFor_ok _
    · split
      · split
        · exact refusesFor_error (by rintro count ⟨⟩)
        · exact refusesFor_ok _
      · exact refusesFor_error (by rintro count ⟨⟩)

theorem readFrom_joins {within : Within}
    (hwithin : ∀ opened c, RefusesFor Error.NotOfJoining (within opened c)) (acc : Option Path)
    (due : Bool) (c : Cursor) : RefusesFor Error.NotOfJoining (readFrom within acc due c) := by
  fun_induction readFrom within acc due c with
  | case1 acc due c e herror => exact refusesFor_error (Piece.read_joins c e herror)
  | case2 => exact refusesFor_ok _
  | case3 acc c piece hpiece _ hdot ih => exact ih
  | case4 => exact refusesFor_error (by rintro count ⟨⟩)
  | case5 => exact refusesFor_error (by rintro count ⟨⟩)
  | case6 => exact refusesFor_ok _
  | case7 => exact refusesFor_error (by rintro count ⟨⟩)
  | case8 acc due c piece hpiece _ _ _ urn name hattach hname hopens e herror =>
      exact refusesFor_error (hwithin _ _ e herror)
  | case9 acc due c piece hpiece _ _ _ urn name hattach _ hname hopens f next hnext hfilter ih =>
      exact ih
  | case10 acc due c piece hpiece _ _ _ urn name hattach _ hname hopens ih => exact ih

end Path

/-- **No text is refused for a junction of fewer than two operands.** -/
theorem parse_joins {limits : Limits} {text : String} {e : Error}
    (h : parseFilter limits text = .error e ∨ parsePath limits text = .error e) :
    e.NotOfJoining := by
  have hopen : RefusesFor Error.NotOfJoining (openText limits text.toList) := by
    intro e he
    obtain ⟨max, -, -, rfl⟩ := openText_eq_error he
    rintro count ⟨⟩
  have hfilter : RefusesFor Error.NotOfJoining (parseFilter limits text) :=
    hopen.bind fun c _ => (Reading.run_joins limits _ c).bind fun _ _ => refusesFor_ok _
  have hpath : RefusesFor Error.NotOfJoining (parsePath limits text) :=
    hopen.bind fun c _ =>
      (Path.readFrom_joins (Filter.readWithin_joins limits) none false c).bind
        fun _ _ => refusesFor_ok _
  exact h.elim (hfilter e) (hpath e)

end ScimQuery
