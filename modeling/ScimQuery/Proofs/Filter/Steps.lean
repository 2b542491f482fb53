import ScimQuery.Parse
import ScimQuery.Proofs.Filter.Folds
import ScimQuery.Proofs.Filter.Phrases
import ScimQuery.Proofs.Text.Places

/-!
# Filter — steps of a run

What a run does at a token.  Where an operand is due (`Level.operandDue`), the token starts a
condition, a group or a value filter; after an operand it is a junction or closes something.
Every other token, and every fault of the text, ends the run with an error.

* `run_reads`: a phrase is taken in, and the run goes on behind it.
* `step_eq_more_iff`, `step_eq_done_iff`: what taking it in leads to, by kinds of phrases.
* `run_join`, `run_closeGroup`, `run_closeValue`: the steps after an operand.
* `run_operand`, `run_openGroup`, `run_openNegated`, `run_openValue`: the steps where an operand
  is due.
* `run_after_eq_error`, `run_due_eq_error`: there are no others.
-/

namespace ScimQuery

open Text (Cursor isKeyword)

/-- The keyword of the junction does not come next. -/
def Stops (region : Region) (j : Junction) (c : Cursor) : Prop :=
  ∀ w k next, Token.read region c = .ok (some ⟨.word w, k, next⟩) → isKeyword w j.keyword = false

namespace Reading

/-- Goes on from a place after a phrase. -/
def proceed (limits : Limits) (next : Cursor) : Progress → Except Error (Filter × Cursor)
  | .more r => r.run limits next
  | .done f => .ok (f, next)

variable {limits : Limits} {l : Level} {outer : List (Path × Level)} {c next : Cursor}
  {w : List Char} {k : Nat}

theorem run_phrase {r : Reading} {phrase : Phrase}
    (h : Phrase.read r.level.region r.level.operandDue c = .ok (some (phrase, next))) :
    r.run limits c = r.step limits phrase >>= proceed limits next := by
  rw [run]
  split
  · rename_i he; rw [h] at he; cases he
  · rename_i he; rw [h] at he; cases he
  · rename_i he
    rw [h] at he
    cases he
    cases hstep : r.step limits phrase with
    | error e => rfl
    | ok progress => cases progress <;> rfl

theorem run_reads {phrase : Phrase} {due : Bool} (hdue : l.operandDue = due)
    (h : Phrase.Reads l.region due c phrase next) :
    run limits ⟨l, outer⟩ c = step limits ⟨l, outer⟩ phrase >>= proceed limits next := by
  subst hdue
  exact run_phrase (Phrase.read_eq_some_iff.mpr h)

theorem run_error {r : Reading} {e : Error}
    (h : Phrase.read r.level.region r.level.operandDue c = .error e) :
    r.run limits c = .error e := by
  rw [run]
  split
  · rename_i he; rw [h] at he; cases he; rfl
  · rename_i he; rw [h] at he; cases he
  · rename_i he; rw [h] at he; cases he

/-- Where there is no token, the run ends. -/
theorem run_end {r : Reading} (h : Token.read r.level.region c = .ok none) :
    r.run limits c = r.finish >>= fun f => .ok (f, ⟨c.position + c.rest.length, []⟩) := by
  have hphrase : Phrase.read r.level.region r.level.operandDue c = .ok none :=
    Phrase.read_eq_none_iff.mpr h
  rw [run]
  split
  · rename_i he; rw [hphrase] at he; cases he
  · cases hfinish : r.finish <;> rfl
  · rename_i he; rw [hphrase] at he; cases he

/-! ### What a phrase leads to -/

/-- A phrase is taken in, and reading goes on: in the level that was read, in that of a value filter
which the phrase opens, or in the one around the value filter which it closes. -/
inductive Steps (limits : Limits) : Reading → Phrase → Reading → Prop where
  | operand {l : Level} {outer : List (Path × Level)} {f : Filter} :
      Steps limits ⟨l, outer⟩ (.operand f) ⟨l.push f, outer⟩
  | openGroup {l : Level} {outer : List (Path × Level)} {negated : Bool} :
      l.nesting < limits.maxDepth →
        Steps limits ⟨l, outer⟩ (.openGroup negated) ⟨l.opened negated, outer⟩
  | closeGroup {l l' : Level} {outer : List (Path × Level)} {k : Nat} :
      l.closeGroup k = .ok l' → Steps limits ⟨l, outer⟩ (.closeGroup k) ⟨l', outer⟩
  | join {l l' : Level} {outer : List (Path × Level)} {j : Junction} :
      l.join j = .ok l' → Steps limits ⟨l, outer⟩ (.join j) ⟨l', outer⟩
  | openValue {l : Level} {outer : List (Path × Level)} {path : Path} {k : Nat} :
      l.nesting < limits.maxDepth →
        Steps limits ⟨l, outer⟩ (.openValue path k)
          ⟨{ bracket := some k, depth := l.nesting + 1 }, (path, l) :: outer⟩
  | closeValue {l around : Level} {outer : List (Path × Level)} {path : Path} {f : Filter} :
      l.finish = .ok f →
        Steps limits ⟨l, (path, around) :: outer⟩ .closeValue
          ⟨around.push (.complex path f), outer⟩

theorem step_eq_more_iff {r r' : Reading} {phrase : Phrase} :
    r.step limits phrase = .ok (.more r') ↔ Steps limits r phrase r' := by
  constructor
  · intro h
    obtain ⟨l, outer⟩ := r
    cases phrase with
    | operand f =>
        cases h
        exact .operand
    | openGroup negated =>
        obtain ⟨l', hopen, h⟩ := Text.bind_eq_ok_iff.mp h
        cases h
        rw [Level.openGroup_eq] at hopen
        split at hopen
        · cases hopen
        · rename_i hlimit
          cases hopen
          exact .openGroup (Nat.lt_of_not_le hlimit)
    | closeGroup k =>
        obtain ⟨l', hclose, h⟩ := Text.bind_eq_ok_iff.mp h
        cases h
        exact .closeGroup hclose
    | join j =>
        obtain ⟨l', hjoin, h⟩ := Text.bind_eq_ok_iff.mp h
        cases h
        exact .join hjoin
    | openValue path k =>
        obtain ⟨r', hopen, h⟩ := Text.bind_eq_ok_iff.mp h
        cases h
        unfold openValue at hopen
        split at hopen
        · cases hopen
        · rename_i hlimit
          cases hopen
          exact .openValue (Nat.lt_of_not_le hlimit)
    | closeValue =>
        obtain ⟨f, hfinish, h⟩ := Text.bind_eq_ok_iff.mp h
        cases outer with
        | nil => cases h
        | cons e outer =>
            cases h
            exact .closeValue hfinish
  · intro h
    cases h with
    | operand => rfl
    | openGroup hlimit =>
        rw [step, Level.openGroup_eq, if_neg (Nat.not_le.mpr hlimit)]
        rfl
    | closeGroup hclose =>
        rw [step, hclose]
        rfl
    | join hjoin =>
        rw [step, hjoin]
        rfl
    | openValue hlimit =>
        rw [step, openValue, if_neg (Nat.not_le.mpr hlimit)]
        rfl
    | closeValue hfinish =>
        rw [step, closeValue, hfinish]
        rfl

/-- Only the bracket that closes the outermost level ends reading. -/
theorem step_eq_done_iff {r : Reading} {phrase : Phrase} {f : Filter} :
    r.step limits phrase = .ok (.done f) ↔
      phrase = .closeValue ∧ r.outer = [] ∧ r.level.finish = .ok f := by
  constructor
  · intro h
    obtain ⟨l, outer⟩ := r
    cases phrase with
    | closeValue =>
        obtain ⟨g, hfinish, h⟩ := Text.bind_eq_ok_iff.mp h
        cases outer with
        | nil =>
            cases h
            exact ⟨rfl, rfl, hfinish⟩
        | cons e outer => cases h
    | operand g => cases h
    | _ =>
        obtain ⟨found, -, h⟩ := Text.bind_eq_ok_iff.mp h
        cases h
  · obtain ⟨l, outer⟩ := r
    rintro ⟨rfl, rfl, hfinish⟩
    rw [step, closeValue, hfinish]
    rfl

/-! ### After an operand -/

theorem run_join {j : Junction} (hdue : l.operandDue = false)
    (h : Token.read l.region c = .ok (some ⟨.word w, k, next⟩))
    (hw : isKeyword w j.keyword = true) :
    run limits ⟨l, outer⟩ c = l.join j >>= fun l' => run limits ⟨l', outer⟩ next := by
  rw [run_reads hdue (.join h hw)]
  simp only [step, bind_assoc]
  rfl

theorem run_closeGroup (hdue : l.operandDue = false)
    (h : Token.read l.region c = .ok (some ⟨.closeParen, k, next⟩)) :
    run limits ⟨l, outer⟩ c = l.closeGroup k >>= fun l' => run limits ⟨l', outer⟩ next := by
  rw [run_reads hdue (.closeGroup h)]
  simp only [step, bind_assoc]
  rfl

theorem run_closeValue (hdue : l.operandDue = false)
    (h : Token.read l.region c = .ok (some ⟨.closeBracket, k, next⟩)) :
    run limits ⟨l, outer⟩ c = (⟨l, outer⟩ : Reading).closeValue >>= proceed limits next :=
  run_reads hdue (.closeValue h)

/-- The tokens that may follow an operand. -/
def Follows : Token → Prop
  | .word w => ∃ j : Junction, isKeyword w j.keyword = true
  | .closeParen => True
  | .closeBracket => True
  | _ => False

theorem run_after_eq_error {t : Token} (hdue : l.operandDue = false)
    (h : Token.read l.region c = .ok (some ⟨t, k, next⟩)) (ht : ¬ Follows t) :
    run limits ⟨l, outer⟩ c = .error (.unexpectedToken t.text k) := by
  refine run_error ?_
  have hphrase : Phrase.ofToken t k = .error (.unexpectedToken t.text k) := by
    cases t with
    | word w =>
        have hand : isKeyword w Junction.and.keyword = false := by
          simpa using fun hw => ht ⟨.and, hw⟩
        have hor : isKeyword w Junction.or.keyword = false := by
          simpa using fun hw => ht ⟨.or, hw⟩
        simp [Phrase.ofToken, hand, hor]
    | closeParen => exact absurd trivial ht
    | closeBracket => exact absurd trivial ht
    | openParen => rfl
    | valuePath w => rfl
  simp only [Phrase.read, h, hdue, hphrase]
  rfl

/-! ### Where an operand is due -/

theorem run_due_eq_error {t : Token} {e : Error} (hdue : l.operandDue = true)
    (h : Token.read l.region c = .ok (some ⟨t, k, next⟩))
    (hphrase : Phrase.readOperand l.region t k next = .error e) :
    run limits ⟨l, outer⟩ c = .error e := by
  refine run_error ?_
  simp only [Phrase.read, h, hdue, hphrase, if_true]

theorem run_operand {f : Filter} {after : Cursor} (hdue : l.operandDue = true)
    (h : Token.read l.region c = .ok (some ⟨.word w, k, next⟩))
    (hnot : isKeyword w "not" = false)
    (hf : Phrase.readCondition l.region w k next = .ok (f, after)) :
    run limits ⟨l, outer⟩ c = run limits ⟨l.push f, outer⟩ after := by
  rw [run_reads hdue (.operand h hnot hf)]
  rfl

theorem run_openGroup (hdue : l.operandDue = true)
    (h : Token.read l.region c = .ok (some ⟨.openParen, k, next⟩)) :
    run limits ⟨l, outer⟩ c =
      l.openGroup limits false >>= fun l' => run limits ⟨l', outer⟩ next := by
  rw [run_reads hdue (.openGroup h)]
  simp only [step, bind_assoc]
  rfl

theorem run_openNegated {inner : Cursor} {m : Nat} (hdue : l.operandDue = true)
    (h : Token.read l.region c = .ok (some ⟨.word w, k, next⟩)) (hnot : isKeyword w "not" = true)
    (hparen : Token.read l.region next = .ok (some ⟨.openParen, m, inner⟩)) :
    run limits ⟨l, outer⟩ c =
      l.openGroup limits true >>= fun l' => run limits ⟨l', outer⟩ inner := by
  rw [run_reads hdue (.openNegated h hnot hparen)]
  simp only [step, bind_assoc]
  rfl

theorem run_openValue {path : Path} (hdue : l.operandDue = true)
    (h : Token.read l.region c = .ok (some ⟨.valuePath w, k, next⟩)) (hne : w ≠ [])
    (hpath : Path.ofWord w = .ok path) :
    run limits ⟨l, outer⟩ c =
      openValue ⟨l, outer⟩ limits path k >>= fun r => run limits r next := by
  have hread : Phrase.readPath w k = .ok path := by simp only [Phrase.readPath, hpath]
  rw [run_reads hdue (.openValue h hne hread)]
  simp only [step, bind_assoc]
  rfl

/-! ### Settling a run of junctions -/

variable {p : Pending} {f : Filter}

/-- Two levels after an operand read on alike if they do the same at each token that may come
next. -/
theorem run_congr {a b : Level} (ha : a.operandDue = false) (hb : b.operandDue = false)
    (hbracket : a.bracket = b.bracket) (hfinish : a.finish = b.finish)
    (hclose : ∀ k, a.closeGroup k = b.closeGroup k)
    (hjoin : ∀ j, Stops a.region j c ∨ a.join j = b.join j) :
    run limits ⟨a, outer⟩ c = run limits ⟨b, outer⟩ c := by
  have hregion : a.region = b.region := by simp only [Level.region, hbracket]
  -- the text has a fault, or ends, or goes on with one of the tokens that may follow an operand
  cases hread : Token.read a.region c with
  | error e =>
      have hphrase {l : Level} (h : Token.read l.region c = .error e) :
          Phrase.read l.region l.operandDue c = .error e := by simp only [Phrase.read, h]
      rw [run_error (r := ⟨a, outer⟩) (hphrase hread),
        run_error (r := ⟨b, outer⟩) (hphrase (hregion ▸ hread))]
  | ok found =>
      rcases found with _ | ⟨t, k, next⟩
      · rw [run_end (r := ⟨a, outer⟩) hread, run_end (r := ⟨b, outer⟩) (hregion ▸ hread)]
        simp only [finish, hbracket, hfinish]
      · by_cases ht : Follows t
        · cases t with
          | word w =>
              obtain ⟨j, hw⟩ := ht
              have hsame : a.join j = b.join j := by
                rcases hjoin j with hstop | hsame
                · rw [hstop w k next hread] at hw
                  cases hw
                · exact hsame
              rw [run_join ha hread hw, run_join hb (hregion ▸ hread) hw, hsame]
          | closeParen => rw [run_closeGroup ha hread, run_closeGroup hb (hregion ▸ hread), hclose]
          | closeBracket =>
              rw [run_closeValue ha hread, run_closeValue hb (hregion ▸ hread)]
              simp only [closeValue, hfinish]
          | openParen => exact ht.elim
          | valuePath w => exact ht.elim
        · rw [run_after_eq_error ha hread ht, run_after_eq_error hb (hregion ▸ hread) ht]

/-- A run of `and` that does not go on may be folded at once. -/
theorem run_conjunction_settle (hl : l.Base) (hc : Stops l.region .and c) :
    run limits ⟨(l.waiting p).push f, outer⟩ c =
      run limits ⟨(l.waiting { p with terms := [] }).push (p.conjunction f), outer⟩ c := by
  refine run_congr rfl rfl rfl ?_ ?_ ?_
  · rw [Level.finish_waiting hl.opens, Level.finish_waiting hl.opens]
    rfl
  · intro k
    rw [Level.closeGroup_waiting hl.opens, Level.closeGroup_waiting hl.opens]
    rfl
  · intro j
    cases j with
    | and => exact .inl hc
    | or =>
        -- `or` ends the run of `and` itself
        right
        rw [Level.join_or hl.opens, Level.join_or hl.opens]
        rfl

/-- Both runs may be folded at once if neither goes on. -/
theorem run_disjunction_settle (hl : l.Base) (hc : ∀ j, Stops l.region j c) :
    run limits ⟨(l.waiting p).push f, outer⟩ c = run limits ⟨l.push (p.join f), outer⟩ c :=
  run_congr rfl rfl rfl (Level.finish_waiting hl.opens)
    (fun k => Level.closeGroup_waiting hl.opens k) (fun j => .inl (hc j))

end Reading

/-! ### Value filters of a path -/

/-- The value filter of a path is read by a run of its own, if the limit allows one. -/
theorem Filter.map_readWithin (limits : Limits) (opened : Nat) (c : Cursor) :
    (fun found => (found.1, found.2.1)) <$> Filter.readWithin limits opened c =
      if limits.maxDepth = 0 then .error (.nestingTooDeep limits.maxDepth)
      else Reading.run limits ⟨{ bracket := some opened, depth := 1 }, []⟩ c := by
  unfold Filter.readWithin
  split
  · rfl
  · split
    · rename_i hrun
      exact hrun.symm
    · rename_i hrun
      exact hrun.symm

theorem Filter.readWithin_eq_ok_iff {limits : Limits} {opened : Nat} {c next : Cursor} {f : Filter}
    {h : next.rest.length ≤ c.rest.length} :
    Filter.readWithin limits opened c = .ok (f, ⟨next, h⟩) ↔
      limits.maxDepth ≠ 0 ∧
        Reading.run limits ⟨{ bracket := some opened, depth := 1 }, []⟩ c = .ok (f, next) := by
  have hmap := Filter.map_readWithin limits opened c
  constructor
  · intro hread
    rw [hread] at hmap
    by_cases hdepth : limits.maxDepth = 0
    · rw [if_pos hdepth] at hmap
      cases hmap
    · rw [if_neg hdepth] at hmap
      exact ⟨hdepth, hmap.symm⟩
  · rintro ⟨hdepth, hrun⟩
    rw [if_neg hdepth, hrun] at hmap
    obtain ⟨⟨g, d, hd⟩, hread, heq⟩ := Text.map_eq_ok_iff.mp hmap
    cases heq
    exact hread

end ScimQuery
