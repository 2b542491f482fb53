import ScimQuery.Filter.Canonical
import ScimQuery.Proofs.Filter.Descent
import ScimQuery.Proofs.Filter.Steps
import ScimQuery.Proofs.Filter.Tokens

/-!
# Filter — the stacks read the grammar

`and` binds tighter than `or`: reading with stacks of operands and marks gives the same filters
as recursive descent (`parseFilter_eq_ok_iff`), for every text and all limits.

A run that waits for a term goes on, from the place after the term, with the term pushed; and so
for every other rule of the grammar (`outcome_term` to `outcome_terms`).  What keeps the two in
step is that a run of junctions on the stacks may be folded as soon as another one cannot extend
it: the step that follows folds it anyway (`run_conjunction_settle`, `run_disjunction_settle`).
-/

namespace ScimQuery

open Text (Cursor isKeyword toOption_eq_some_iff)

namespace Descent

variable {limits : Limits} {region : Region} {depth k : Nat} {c next : Cursor} {w : List Char}

/-! ### Tokens and conditions -/

theorem token_of_error {e : Error} (h : Token.read region c = .error e) :
    token region c = none := by
  unfold token
  split
  · rfl
  · rename_i he; rw [h] at he; cases he
  · rename_i he; rw [h] at he; cases he

theorem token_of_end (h : Token.read region c = .ok none) : token region c = some none := by
  unfold token
  split
  · rename_i he; rw [h] at he; cases he
  · rfl
  · rename_i he; rw [h] at he; cases he

theorem token_of_some {t : Token} (h : Token.read region c = .ok (some ⟨t, k, next⟩)) :
    token region c = some (some (t, ⟨next, Token.read_length h⟩)) := by
  unfold token
  split
  · rename_i he; rw [h] at he; cases he
  · rename_i he; rw [h] at he; cases he
  · rename_i he
    obtain rfl := Option.some.inj (Except.ok.inj (h.symm.trans he))
    rfl

theorem readPath_eq (hne : w ≠ []) : (Phrase.readPath w k).toOption = path w := by
  unfold Phrase.readPath
  cases hpath : Path.ofWord w <;> simp [path, hne, hpath, Except.toOption]

theorem readValue_eq : (Phrase.readValue c).toOption = (value c).map fun v => (v.1, v.2.1) := by
  unfold Phrase.readValue value
  split <;> simp_all [Except.toOption]

/-- A condition is read alike with and without reasons. -/
theorem readCondition_eq (hne : w ≠ []) :
    (Phrase.readCondition region w k c).toOption =
      (condition region w c).map fun f => (f.1, f.2.1) := by
  unfold condition
  rw [← readPath_eq (k := k) hne, Phrase.readCondition]
  cases hpath : Phrase.readPath w k with
  | error e => rfl
  | ok p =>
      cases hread : Token.read region c with
      | error e => simp [token_of_error hread, Except.toOption]
      | ok found =>
          rcases found with _ | ⟨t, place, next⟩
          · simp [token_of_end hread, Except.toOption]
          cases t with
          | word op =>
              by_cases hpr : isKeyword op Operator.presentKeyword = true
              · simp [token_of_some hread, hpr, Except.toOption]
              · cases hop : Operator.ofKeyword? op with
                | none => simp [token_of_some hread, hpr, hop, Except.toOption]
                | some operator =>
                    have hvalue := readValue_eq (c := next)
                    cases hv : Phrase.readValue next with
                    | error e =>
                        rw [hv] at hvalue
                        have hnone := Option.map_eq_none_iff.mp hvalue.symm
                        simp [token_of_some hread, hpr, hop, hv, hnone, Except.toOption]
                    | ok v =>
                        rw [hv] at hvalue
                        obtain ⟨v', hsome, rfl⟩ := Option.map_eq_some_iff.mp hvalue.symm
                        simp [token_of_some hread, hpr, hop, hv, hsome, Except.toOption]
          | _ => simp [token_of_some hread, Except.toOption]

/-! ### The items of a sequence after its first -/

/-- What may come next after an item: a fault, the keyword of the junction, or neither. -/
theorem item_cases (region : Region) (j : Junction) (c : Cursor) :
    (∃ e, Token.read region c = .error e) ∨
      (∃ w k next, Token.read region c = .ok (some ⟨.word w, k, next⟩) ∧
        isKeyword w j.keyword = true) ∨
      (∃ found, Token.read region c = .ok found) ∧ Stops region j c := by
  by_cases hstop : Stops region j c
  · cases hread : Token.read region c with
    | error e => exact .inl ⟨e, rfl⟩
    | ok found => exact .inr (.inr ⟨⟨found, rfl⟩, hstop⟩)
  · simp only [Stops, Classical.not_forall, Bool.not_eq_false] at hstop
    obtain ⟨w, k, next, hread, hw⟩ := hstop
    exact .inr (.inl ⟨w, k, next, hread, hw⟩)

theorem more_of_error {j : Junction} {e : Error} (h : Token.read region c = .error e) :
    more limits region depth j c = none := by
  rw [more]
  simp only [token_of_error h]

theorem more_of_keyword {j : Junction} {α : Type} (rest : List Filter → Cursor → Option α)
    (h : Token.read region c = .ok (some ⟨.word w, k, next⟩))
    (hw : isKeyword w j.keyword = true) :
    ((more limits region depth j c).bind fun r => rest r.1 r.2.1) =
      (item limits region depth j next).bind fun r =>
        (more limits region depth j r.2.1).bind fun s => rest (r.1 :: s.1) s.2.1 := by
  rw [more]
  simp only [token_of_some h, hw, if_true]
  cases item limits region depth j next with
  | none => rfl
  | some r =>
      obtain ⟨f, d, hd⟩ := r
      simp only [Option.bind_some]
      cases more limits region depth j d <;> rfl

theorem more_of_stops {j : Junction} {found : Option Token.Lexeme}
    (h : Token.read region c = .ok found) (hc : Stops region j c) :
    more limits region depth j c = some ([], ⟨c, Nat.le_refl _⟩) := by
  rw [more]
  rcases found with _ | ⟨t, k, next⟩
  · simp only [token_of_end h]
  cases t with
  | word w => simp [token_of_some h, hc w k next h]
  | _ => simp only [token_of_some h]

/-! ### Where sequences stop -/

theorem more_stops {c d : Cursor} {j : Junction} {fs : List Filter}
    {hd : d.rest.length ≤ c.rest.length}
    (h : more limits region depth j c = some (fs, ⟨d, hd⟩)) : Stops region j d := by
  intro w k next hread
  rw [more] at h
  split at h
  · cases h
  · split at h
    · split at h
      · cases h
      · split at h
        · cases h
        · rename_i hmore
          cases h
          exact more_stops hmore w k next hread
    · rename_i htoken hw
      cases h
      rw [token_of_some hread] at htoken
      cases htoken
      simpa using hw
  · rename_i hother htoken
    cases h
    rw [token_of_some hread] at htoken
    cases htoken
    exact absurd rfl (hother w next (Token.read_length hread))
termination_by c.rest.length
decreasing_by omega

theorem sequence_stops {d : Cursor} {j : Junction} {f : Filter}
    {hd : d.rest.length ≤ c.rest.length}
    (h : sequence limits region depth j c = some (f, ⟨d, hd⟩)) : Stops region j d := by
  rw [sequence] at h
  split at h
  · cases h
  · split at h
    · cases h
    · rename_i hmore
      cases h
      exact more_stops hmore

/-- Behind a conjunction of a disjunction there is no `and`. -/
theorem more_or_stops {c d : Cursor} {fs : List Filter} {hd : d.rest.length ≤ c.rest.length}
    (hc : Stops region .and c)
    (h : more limits region depth .or c = some (fs, ⟨d, hd⟩)) : Stops region .and d := by
  rw [more] at h
  split at h
  · cases h
  · split at h
    · split at h
      · cases h
      · rename_i hitem
        split at h
        · cases h
        · rename_i hmore
          cases h
          rw [item] at hitem
          exact more_or_stops (sequence_stops hitem) hmore
    · cases h
      exact hc
  · cases h
    exact hc
termination_by c.rest.length
decreasing_by omega

theorem disjunction_stops {d : Cursor} {f : Filter} {hd : d.rest.length ≤ c.rest.length}
    (h : sequence limits region depth .or c = some (f, ⟨d, hd⟩)) : ∀ j, Stops region j d
  | .or => sequence_stops h
  | .and => by
      rw [sequence] at h
      split at h
      · cases h
      · rename_i hitem
        split at h
        · cases h
        · rename_i hmore
          cases h
          rw [item] at hitem
          exact more_or_stops (sequence_stops hitem) hmore

end Descent

namespace Reading

open Descent (From token_of_error token_of_end token_of_some)

variable {limits : Limits} {l : Level} {outer : List (Path × Level)} {c : Cursor} {p : Pending}
  {f : Filter}

/-! ### What closes a filter -/

/-- The filter and the place where a run ends, if it succeeds. -/
def outcome (limits : Limits) (l : Level) (outer : List (Path × Level)) (c : Cursor) :
    Option (Filter × Cursor) :=
  (run limits ⟨l, outer⟩ c).toOption

theorem outcome_of_error {e : Error} (h : Token.read l.region c = .error e) :
    outcome limits l outer c = none := by
  have hphrase : Phrase.read l.region l.operandDue c = .error e := by simp only [Phrase.read, h]
  rw [outcome, run_error (r := ⟨l, outer⟩) hphrase]
  rfl

theorem outcome_of_end (h : Token.read l.region c = .ok none)
    (hfinish : ∀ g, (⟨l, outer⟩ : Reading).finish ≠ .ok g) : outcome limits l outer c = none := by
  rw [outcome, run_end (r := ⟨l, outer⟩) h]
  cases hl : (⟨l, outer⟩ : Reading).finish with
  | error e => rfl
  | ok f => exact absurd hl (hfinish f)

theorem finish_ne_ok (h : ∀ g, l.finish ≠ .ok g) (g : Filter) :
    (⟨l, outer⟩ : Reading).finish ≠ .ok g := by
  unfold finish
  split
  · exact fun h => nomatch h
  · exact h g

theorem outcome_join {l l' : Level} {j : Junction} {w : List Char} {k : Nat} {next : Cursor}
    (hdue : l.operandDue = false) (h : Token.read l.region c = .ok (some ⟨.word w, k, next⟩))
    (hw : isKeyword w j.keyword = true) (hjoin : l.join j = .ok l') :
    outcome limits l outer c = outcome limits l' outer next := by
  rw [outcome, run_join hdue h hw, hjoin]
  rfl

/-- Behind a disjunction, a filter that must be closed is closed by the token `close` and by
nothing else. -/
theorem outcome_closing {close : Token} {closed : Cursor → Option (Filter × Cursor)}
    (hdue : l.operandDue = false) (hc : ∀ j, Stops l.region j c)
    (hfinish : ∀ g, (⟨l, outer⟩ : Reading).finish ≠ .ok g) (hclose : Follows close)
    (hclosed : ∀ t k next, Token.read l.region c = .ok (some ⟨t, k, next⟩) →
      (t = .closeParen ∨ t = .closeBracket) →
        outcome limits l outer c = if t = close then closed next else none) :
    outcome limits l outer c =
      match Descent.token l.region c with
      | some (some (t, ⟨next, _⟩)) => if t = close then closed next else none
      | _ => none := by
  cases hread : Token.read l.region c with
  | error e => rw [outcome_of_error hread, token_of_error hread]
  | ok found =>
      rcases found with _ | ⟨t, k, next⟩
      · rw [outcome_of_end hread hfinish, token_of_end hread]
      · simp only [token_of_some hread]
        by_cases ht : Follows t
        · cases t with
          | word w =>
              obtain ⟨j, hw⟩ := ht
              rw [hc j w k next hread] at hw
              cases hw
          | closeParen => exact hclosed _ k next hread (.inl rfl)
          | closeBracket => exact hclosed _ k next hread (.inr rfl)
          | openParen => exact ht.elim
          | valuePath w => exact ht.elim
        · rw [if_neg (fun h : t = close => ht (h ▸ hclose)), outcome,
            run_after_eq_error hdue hread ht]
          rfl

/-- A group is closed by a parenthesis. -/
theorem outcome_group (negated : Bool) (hc : ∀ j, Stops l.region j c) :
    outcome limits ((l.opened negated).push f) outer c =
      match Descent.token l.region c with
      | some (some (t, ⟨next, _⟩)) =>
        if t = .closeParen then outcome limits (l.push (Level.grouped negated f)) outer next
        else none
      | _ => none := by
  refine outcome_closing (l := (l.opened negated).push f) rfl hc
    (finish_ne_ok fun g h => nomatch h) trivial ?_
  intro t k next hread ht
  rcases ht with rfl | rfl
  · rw [if_pos rfl, outcome, run_closeGroup rfl hread, Level.closeGroup_opened]
    rfl
  · rw [if_neg (by decide), outcome, run_closeValue rfl hread]
    rfl

/-- A value filter is closed by a bracket. -/
theorem outcome_value (k n : Nat) (path : Path) (hc : ∀ j, Stops .valueFilter j c) :
    outcome limits (({ bracket := some k, depth := n } : Level).push f) ((path, l) :: outer) c =
      match Descent.token .valueFilter c with
      | some (some (t, ⟨next, _⟩)) =>
        if t = .closeBracket then outcome limits (l.push (.complex path f)) outer next else none
      | _ => none := by
  refine outcome_closing (l := ({ bracket := some k, depth := n } : Level).push f) rfl hc
    (fun g h => nomatch h) trivial ?_
  intro t place next hread ht
  rcases ht with rfl | rfl
  · rw [if_neg (by decide), outcome, run_closeGroup rfl hread, Level.closeGroup_unopened rfl]
    rfl
  · rw [if_pos rfl, outcome, run_closeValue rfl hread]
    rfl

/-- A filter by itself ends with the text. -/
theorem outcome_whole (hc : ∀ j, Stops .filter j c) :
    (outcome limits (({ bracket := none, depth := 0 } : Level).push f) [] c).map Prod.fst =
      match Descent.token .filter c with
      | some none => some f
      | _ => none := by
  obtain ⟨a, ha⟩ : ∃ a : Level, a = ({ bracket := none, depth := 0 } : Level).push f := ⟨_, rfl⟩
  have hregion : a.region = .filter := ha ▸ rfl
  have hdue : a.operandDue = false := ha ▸ rfl
  rw [← ha]
  cases hread : Token.read a.region c with
  | error e => rw [outcome_of_error hread, token_of_error (hregion ▸ hread)]; rfl
  | ok found =>
      rcases found with _ | ⟨t, k, next⟩
      · rw [token_of_end (hregion ▸ hread), outcome, run_end (r := ⟨a, []⟩) hread, ha]
        rfl
      · simp only [token_of_some (hregion ▸ hread)]
        by_cases ht : Follows t
        · cases t with
          | word w =>
              obtain ⟨j, hw⟩ := ht
              rw [hc j w k next (hregion ▸ hread)] at hw
              cases hw
          | closeParen =>
              rw [outcome, run_closeGroup hdue hread, ha, Level.closeGroup_unopened rfl]
              rfl
          | closeBracket =>
              -- a closing bracket is no token here
              rw [hregion] at hread
              cases Token.read_closeBracket hread
          | openParen => exact ht.elim
          | valuePath w => exact ht.elim
        · rw [outcome, run_after_eq_error hdue hread ht]
          rfl

/-! ### Terms by their first token -/

/-- A condition is a term. -/
theorem outcome_condition {w : List Char} {k : Nat} {next : Cursor} (hdue : l.operandDue = true)
    (hread : Token.read l.region c = .ok (some ⟨.word w, k, next⟩))
    (hnot : isKeyword w "not" = false) :
    outcome limits l outer c =
      (Descent.term limits l.region l.nesting c).bind fun r =>
        outcome limits (l.push r.1) outer r.2.1 := by
  have hcondition : (Phrase.readCondition l.region w k next).toOption =
      (Descent.condition l.region w next).map fun f => (f.1, f.2.1) :=
    Descent.readCondition_eq (Token.read_spelled hread).1
  rw [Descent.term]
  simp only [token_of_some hread, hnot, Bool.false_eq_true, if_false]
  cases hf : Phrase.readCondition l.region w k next with
  | error e =>
      rw [hf] at hcondition
      rw [Option.map_eq_none_iff.mp hcondition.symm, outcome,
        run_due_eq_error hdue hread (e := e) (by simp [Phrase.readOperand, hnot, hf])]
      rfl
  | ok found =>
      rw [hf] at hcondition
      obtain ⟨r, hr, rfl⟩ := Option.map_eq_some_iff.mp hcondition.symm
      rw [hr, outcome, run_operand hdue hread hnot hf]
      rfl

/-- A negated group is a term, if what is in it is read alike. -/
theorem outcome_negated {w : List Char} {k : Nat} {next : Cursor} (hdue : l.operandDue = true)
    (hread : Token.read l.region c = .ok (some ⟨.word w, k, next⟩))
    (hnot : isKeyword w "not" = true)
    (hgroup : ∀ m inner, Token.read l.region next = .ok (some ⟨.openParen, m, inner⟩) →
      (l.openGroup limits true >>= fun l' => run limits ⟨l', outer⟩ inner).toOption =
        (Descent.enclosed limits l.region .closeParen l.nesting inner).bind fun r =>
          outcome limits (l.push (Level.grouped true r.1)) outer r.2.1) :
    outcome limits l outer c =
      (Descent.term limits l.region l.nesting c).bind fun r =>
        outcome limits (l.push r.1) outer r.2.1 := by
  have hrefused {e : Error} (h : Phrase.readNegated l.region next = .error e) :
      outcome limits l outer c = none := by
    rw [outcome, run_due_eq_error hdue hread (e := e) (by simp [Phrase.readOperand, hnot, h])]
    rfl
  rw [Descent.term]
  simp only [token_of_some hread, hnot, if_true]
  cases hparen : Token.read l.region next with
  | error e =>
      rw [hrefused (e := e) (by simp [Phrase.readNegated, hparen]), token_of_error hparen]
      rfl
  | ok found =>
      rcases found with _ | ⟨t, m, inner⟩
      · rw [hrefused (e := .unexpectedEndOfFilter) (by simp [Phrase.readNegated, hparen]),
          token_of_end hparen]
        rfl
      cases t with
      | openParen =>
          simp only [token_of_some hparen]
          rw [outcome, run_openNegated hdue hread hnot hparen, hgroup m inner hparen]
          cases Descent.enclosed limits l.region .closeParen l.nesting inner <;> rfl
      | _ =>
          rw [hrefused (e := .openParenExpected m) (by simp [Phrase.readNegated, hparen])]
          simp only [token_of_some hparen]
          rfl

/-- A path with a value filter is a term, if the value filter is read alike. -/
theorem outcome_valuePath {w : List Char} {k : Nat} {next : Cursor} (hdue : l.operandDue = true)
    (hread : Token.read l.region c = .ok (some ⟨.valuePath w, k, next⟩))
    (hvalue : ∀ path,
      (openValue ⟨l, outer⟩ limits path k >>= fun r => run limits r next).toOption =
        (Descent.enclosed limits .valueFilter .closeBracket l.nesting next).bind fun r =>
          outcome limits (l.push (.complex path r.1)) outer r.2.1) :
    outcome limits l outer c =
      (Descent.term limits l.region l.nesting c).bind fun r =>
        outcome limits (l.push r.1) outer r.2.1 := by
  rw [Descent.term]
  simp only [token_of_some hread]
  by_cases hne : w = []
  · rw [outcome, run_due_eq_error hdue hread (e := .attributeNameExpected k)
      (by simp [Phrase.readOperand, hne]), Descent.path, if_pos (by simp [hne])]
    rfl
  · rw [Descent.path, if_neg (by simpa using hne)]
    cases hpath : Path.ofWord w with
    | error e =>
        rw [outcome, run_due_eq_error hdue hread (e := .invalidAttributePath k e)
          (by simp [Phrase.readOperand, hne, Phrase.readPath, hpath])]
        rfl
    | ok path =>
        rw [outcome, run_openValue hdue hread hne hpath, hvalue path]
        cases Descent.enclosed limits .valueFilter .closeBracket l.nesting next <;> rfl

/-- A closing character is no term. -/
theorem outcome_closed {t : Token} {k : Nat} {next : Cursor} (hdue : l.operandDue = true)
    (hread : Token.read l.region c = .ok (some ⟨t, k, next⟩))
    (ht : t = .closeParen ∨ t = .closeBracket) :
    outcome limits l outer c =
      (Descent.term limits l.region l.nesting c).bind fun r =>
        outcome limits (l.push r.1) outer r.2.1 := by
  rw [Descent.term]
  rcases ht with rfl | rfl
  · simp only [token_of_some hread]
    rw [outcome, run_due_eq_error hdue hread rfl]
    rfl
  · simp only [token_of_some hread]
    rw [outcome, run_due_eq_error hdue hread rfl]
    rfl

/-! ### The rules of the grammar -/

mutual

/-- Where a term is due, a run goes on after the term. -/
theorem outcome_term {l : Level} (outer : List (Path × Level)) {c : Cursor}
    (hdue : l.operandDue = true) (hfinish : ∀ g, l.finish ≠ .ok g) :
    outcome limits l outer c =
      (Descent.term limits l.region l.nesting c).bind fun r =>
        outcome limits (l.push r.1) outer r.2.1 := by
  cases hread : Token.read l.region c with
  | error e =>
      rw [Descent.term, outcome_of_error hread, token_of_error hread]
      rfl
  | ok found =>
      rcases found with _ | ⟨t, k, next⟩
      · rw [Descent.term, outcome_of_end hread (finish_ne_ok hfinish), token_of_end hread]
        rfl
      cases t with
      | openParen =>
          have hnext : next.rest.length < c.rest.length := Token.read_length hread
          rw [Descent.term]
          simp only [token_of_some hread]
          rw [outcome, run_openGroup hdue hread, outcome_openGroup hdue false]
          cases Descent.enclosed limits l.region .closeParen l.nesting next <;> rfl
      | word w =>
          cases hnot : isKeyword w "not" with
          | false => exact outcome_condition hdue hread hnot
          | true =>
              refine outcome_negated hdue hread hnot fun m inner hparen => ?_
              have hinner : inner.rest.length < c.rest.length :=
                Nat.lt_trans (Token.read_length hparen) (Token.read_length hread)
              exact outcome_openGroup hdue true
      | valuePath w =>
          have hnext : next.rest.length < c.rest.length := Token.read_length hread
          exact outcome_valuePath hdue hread fun path => outcome_openValue path k
      | closeParen => exact outcome_closed hdue hread (.inl rfl)
      | closeBracket => exact outcome_closed hdue hread (.inr rfl)
termination_by (c.rest.length, 1)

theorem outcome_openGroup {l : Level} {outer : List (Path × Level)} {c : Cursor}
    (hdue : l.operandDue = true) (negated : Bool) :
    (l.openGroup limits negated >>= fun l' => run limits ⟨l', outer⟩ c).toOption =
      (Descent.enclosed limits l.region .closeParen l.nesting c).bind fun r =>
        outcome limits (l.push (Level.grouped negated r.1)) outer r.2.1 := by
  rw [Level.openGroup_eq]
  by_cases hdepth : limits.maxDepth ≤ l.nesting
  · rw [if_pos hdepth, Descent.enclosed, if_pos hdepth]
    rfl
  · rw [if_neg hdepth]
    exact outcome_enclosed (Level.base_opened negated) hdue (Level.nesting_opened negated) hdepth
      (fun f d hd => outcome_group negated hd)
termination_by (c.rest.length, 7)

theorem outcome_openValue {l : Level} {outer : List (Path × Level)} {c : Cursor} (path : Path)
    (k : Nat) :
    (openValue ⟨l, outer⟩ limits path k >>= fun r => run limits r c).toOption =
      (Descent.enclosed limits .valueFilter .closeBracket l.nesting c).bind fun r =>
        outcome limits (l.push (.complex path r.1)) outer r.2.1 := by
  unfold openValue
  by_cases hdepth : limits.maxDepth ≤ l.nesting
  · rw [if_pos hdepth, Descent.enclosed, if_pos hdepth]
    rfl
  · rw [if_neg hdepth]
    have hbase : ({ bracket := some k, depth := l.nesting + 1 } : Level).Base :=
      ⟨Level.opens_nil, fun _ => rfl⟩
    exact outcome_enclosed hbase rfl rfl hdepth
      (fun f d hd => outcome_value k (l.nesting + 1) path hd)
termination_by (c.rest.length, 7)

/-- A filter that must be closed is a disjunction, and what closes it. -/
theorem outcome_enclosed {l : Level} {outer : List (Path × Level)} {c : Cursor} {depth : Nat}
    {close : Token} {closed : Filter → Cursor → Option (Filter × Cursor)} (hl : l.Base)
    (hdue : l.operandDue = true) (hnesting : l.nesting = depth + 1)
    (hdepth : ¬ limits.maxDepth ≤ depth)
    (hclosed : ∀ f d, (∀ j, Stops l.region j d) →
      outcome limits (l.push f) outer d =
        match Descent.token l.region d with
        | some (some (t, ⟨next, _⟩)) => if t = close then closed f next else none
        | _ => none) :
    outcome limits l outer c =
      (Descent.enclosed limits l.region close depth c).bind fun r => closed r.1 r.2.1 := by
  rw [Descent.enclosed, if_neg hdepth, outcome_disjunction outer hl hdue, hnesting]
  cases hseq : Descent.sequence limits l.region (depth + 1) .or c with
  | none => rfl
  | some r =>
      obtain ⟨f, d, hd⟩ := r
      simp only [Option.bind_some]
      rw [hclosed f d (Descent.disjunction_stops hseq)]
      cases Descent.token l.region d with
      | none => rfl
      | some found =>
          cases found with
          | none => rfl
          | some t => by_cases ht : t.1 = close <;> simp [ht]
termination_by (c.rest.length, 6)

/-- Where a disjunction is due, a run goes on after it. -/
theorem outcome_disjunction {l : Level} (outer : List (Path × Level)) {c : Cursor} (hl : l.Base)
    (hdue : l.operandDue = true) :
    outcome limits l outer c =
      (Descent.sequence limits l.region l.nesting .or c).bind fun r =>
        outcome limits (l.push r.1) outer r.2.1 := by
  have hitem := outcome_conjunction outer (c := c) hl []
  rw [Level.waiting_empty hdue] at hitem
  rw [Descent.sequence, Descent.item, hitem]
  cases hseq : Descent.sequence limits l.region l.nesting .and c with
  | none => rfl
  | some r =>
      obtain ⟨f, d, hd⟩ := r
      have hmore := outcome_alternatives outer hl [] f (Descent.sequence_stops hseq)
      rw [Level.waiting_empty hdue] at hmore
      simp only [Option.bind_some, hmore]
      cases Descent.more limits l.region l.nesting .or d <;> rfl
termination_by (c.rest.length, 5)
decreasing_by
  · decreasing_tactic
  -- the place after the first item is not before the one it was read from
  · exact Prod.Lex.right' _ hd (by decide)

theorem outcome_alternatives {l : Level} (outer : List (Path × Level)) {c : Cursor} (hl : l.Base)
    (as : List Filter) (f : Filter) (hc : Stops l.region .and c) :
    outcome limits ((l.waiting { alternatives := as }).push f) outer c =
      (Descent.more limits l.region l.nesting .or c).bind fun r =>
        outcome limits (l.push (.joined .or ((f :: as).reverse ++ r.1))) outer r.2.1 := by
  rcases Descent.item_cases l.region .or c with ⟨e, hread⟩ | ⟨w, k, next, hread, hw⟩ |
    ⟨⟨found, hread⟩, hstop⟩
  · rw [Descent.more_of_error hread]
    exact outcome_of_error hread
  · have hnext : next.rest.length < c.rest.length := Token.read_length hread
    rw [outcome_join (l := (l.waiting { alternatives := as }).push f) rfl hread hw
        (Level.join_or hl.opens),
      Descent.more_of_keyword (fun fs d => outcome limits
        (l.push (.joined .or ((f :: as).reverse ++ fs))) outer d) hread hw,
      Descent.item]
    refine (outcome_conjunction outer hl (f :: as)).trans ?_
    cases hseq : Descent.sequence limits l.region l.nesting .and next with
    | none => rfl
    | some r =>
        obtain ⟨g, d, hd⟩ := r
        have hshorter : d.rest.length < c.rest.length := Nat.lt_of_le_of_lt hd hnext
        have hmore := outcome_alternatives outer hl (f :: as) g
          (Descent.sequence_stops hseq)
        simp only [Option.bind_some, hmore, List.reverse_cons, List.append_assoc,
          List.cons_append, List.nil_append]
  · -- neither run goes on, so both may be folded here
    have hstops : ∀ j, Stops l.region j c := by
      intro j
      cases j with
      | and => exact hc
      | or => exact hstop
    rw [Descent.more_of_stops hread hstop, outcome, run_disjunction_settle hl hstops]
    simp only [Option.bind_some, List.append_nil]
    rfl
termination_by (c.rest.length, 0)

theorem outcome_conjunction {l : Level} (outer : List (Path × Level)) {c : Cursor} (hl : l.Base)
    (as : List Filter) :
    outcome limits (l.waiting { alternatives := as }) outer c =
      (Descent.sequence limits l.region l.nesting .and c).bind fun r =>
        outcome limits ((l.waiting { alternatives := as }).push r.1) outer r.2.1 := by
  have hitem := outcome_term outer (c := c) (l := l.waiting { alternatives := as }) rfl
    (fun g => Level.finish_waiting_ne_ok hl)
  rw [hitem, Descent.sequence, Descent.item]
  simp only [Level.region_waiting, Level.nesting_waiting]
  cases hterm : Descent.term limits l.region l.nesting c with
  | none => rfl
  | some r =>
      obtain ⟨f, d, hd⟩ := r
      have hmore := outcome_terms outer (c := d) hl { alternatives := as } f
      simp only [Option.bind_some, hmore]
      cases Descent.more limits l.region l.nesting .and d <;> rfl
termination_by (c.rest.length, 3)
decreasing_by
  · decreasing_tactic
  · exact Prod.Lex.right' _ hd (by decide)

theorem outcome_terms {l : Level} (outer : List (Path × Level)) {c : Cursor} (hl : l.Base)
    (p : Pending) (f : Filter) :
    outcome limits ((l.waiting p).push f) outer c =
      (Descent.more limits l.region l.nesting .and c).bind fun r =>
        outcome limits
          ((l.waiting { p with terms := [] }).push
            (.joined .and ((f :: p.terms).reverse ++ r.1))) outer r.2.1 := by
  rcases Descent.item_cases l.region .and c with ⟨e, hread⟩ | ⟨w, k, next, hread, hw⟩ |
    ⟨⟨found, hread⟩, hstop⟩
  · rw [Descent.more_of_error hread]
    exact outcome_of_error hread
  · have hnext : next.rest.length < c.rest.length := Token.read_length hread
    rw [outcome_join (l := (l.waiting p).push f) rfl hread hw Level.join_and,
      Descent.more_of_keyword (fun fs d => outcome limits
        ((l.waiting { p with terms := [] }).push
          (.joined .and ((f :: p.terms).reverse ++ fs))) outer d) hread hw,
      Descent.item]
    refine (outcome_term outer (l := l.waiting { p with terms := f :: p.terms }) rfl
      (fun g => Level.finish_waiting_ne_ok hl)).trans ?_
    simp only [Level.region_waiting, Level.nesting_waiting]
    cases hterm : Descent.term limits l.region l.nesting next with
    | none => rfl
    | some r =>
        obtain ⟨g, d, hd⟩ := r
        have hshorter : d.rest.length < c.rest.length := Nat.lt_of_le_of_lt hd hnext
        have hmore := outcome_terms outer (c := d) hl { p with terms := f :: p.terms } g
        simp only [Option.bind_some, hmore, List.reverse_cons, List.append_assoc,
          List.cons_append, List.nil_append]
  · -- `or` may still come, so that only the run of `and` is folded
    rw [Descent.more_of_stops hread hstop, outcome, run_conjunction_settle hl hstop]
    simp only [Option.bind_some, List.append_nil]
    rfl
termination_by (c.rest.length, 0)

end

end Reading

/-! ### Whole texts -/

/-- What reading with stacks gives is what recursive descent gives. -/
theorem parseFilter_toOption (limits : Limits) (text : String) :
    (parseFilter limits text).toOption = Descent.parse limits text := by
  unfold parseFilter parseFilterChars Descent.parse
  cases openText limits text.toList with
  | error e => rfl
  | ok c =>
      have hbase : ({ bracket := none, depth := 0 } : Level).Base :=
        ⟨Level.opens_nil, fun _ => rfl⟩
      refine Eq.trans
        (b := (Reading.outcome limits { bracket := none, depth := 0 } [] c).map Prod.fst) ?_ ?_
      · unfold Filter.read Reading.outcome
        dsimp only [bind, Except.bind]
        cases Reading.run limits ⟨{ bracket := none, depth := 0 }, []⟩ c <;> rfl
      rw [Reading.outcome_disjunction [] hbase rfl]
      change Option.map Prod.fst ((Descent.sequence limits .filter 0 .or c).bind _) = _
      dsimp only
      cases hseq : Descent.sequence limits .filter 0 .or c with
      | none => rfl
      | some r =>
          obtain ⟨f, d, hd⟩ := r
          exact Reading.outcome_whole (Descent.disjunction_stops hseq)

/-- **The filter that a text spells is the one of the grammar**, under the same limits, where
`and` binds tighter than `or`, a run of one junction is one filter of all its operands in their
order, and a group is never merged into the filter around it. -/
theorem parseFilter_eq_ok_iff (limits : Limits) (text : String) (f : Filter) :
    parseFilter limits text = .ok f ↔ Descent.parse limits text = some f := by
  rw [← parseFilter_toOption, toOption_eq_some_iff]

/-- The group stays a filter of its own, and the run of `and` becomes one of three operands. -/
example : (Descent.parse {} "(a pr or b pr) or c pr and d pr and e pr").map Filter.text =
    some "((a pr or b pr) or (c pr and d pr and e pr))" := by
  rw [← parseFilter_toOption]
  decide +kernel

end ScimQuery
