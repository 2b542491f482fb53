import ScimQuery.Proofs.Filter.Delimiters
import ScimQuery.Proofs.Filter.ReadBack

/-!
# Filter — what the limit on nesting does

The limit on nesting cuts reading off and does nothing else: there is a number below which reading
ends with the error that tells of the limit, and from which on it gives one result, or one other
error, whatever the limit is (`CutOff`).  Where reading succeeds, this number is that of the
delimiters of the text that are open at once.

* `CutOff.bind`: two readers in a row are cut off at the larger of their numbers.
* `Level.Tracked`, `Level.Stacked`: the groups that a level counts are those on its stack of marks,
  and it is one deeper than the level that it suspends.  So the nesting of a level is the number of
  delimiters that are open.
* `Reading.step_cutOff`, `Reading.run_cutOff`: a phrase, and from it by induction what is left of a
  text.
* `Path.readFrom_cutOff`: paths, where the levels of each value filter start anew.
* `parse_nestingLimit`: whole texts.
-/

namespace ScimQuery

open Text (Cursor Spans delimiters mostOpen mostOpen_closing openAfter openMost)

/-! ### Readers under a limit -/

/-- The reader is cut off below some number, and gives one and the same from this number on.  `P`
holds of a result and this number. -/
def CutOff {α : Type} (P : α → Nat → Prop) (read : Nat → Except Error α) : Prop :=
  ∃ n x, (∀ d, read d = if n ≤ d then x else .error (.nestingTooDeep d)) ∧
    ∀ a, x = .ok a → P a n

namespace CutOff

variable {α β : Type} {P : α → Nat → Prop} {Q : β → Nat → Prop} {read : Nat → Except Error α}

/-- A reader that does not look at the limit. -/
theorem const {x : Except Error α} (hread : ∀ d, read d = x) (h : ∀ a, x = .ok a → P a 0) :
    CutOff P read :=
  ⟨0, x, fun d => (hread d).trans (if_pos (Nat.zero_le d)).symm, h⟩

theorem deepen (maxLength : Option Nat) (m : Nat) :
    CutOff (fun _ n => n = m + 1) (fun d => Limits.deepen ⟨maxLength, d⟩ m) := by
  refine ⟨m + 1, .ok (), ?_, fun _ _ => rfl⟩
  intro d
  show (if d ≤ m then _ else _) = _
  by_cases hd : d ≤ m
  · rw [if_pos hd, if_neg (by omega)]
  · rw [if_neg hd, if_pos (by omega)]

theorem bind {next : Nat → α → Except Error β} (hread : CutOff P read)
    (hnext : ∀ a m, P a m → CutOff (fun b n => Q b (max m n)) (fun d => next d a)) :
    CutOff Q (fun d => read d >>= next d) := by
  obtain ⟨m, x, hread, hP⟩ := hread
  cases x with
  | error e =>
      refine ⟨m, .error e, ?_, fun _ h => nomatch h⟩
      intro d
      show read d >>= next d = _
      rw [hread]
      split <;> rfl
  | ok a =>
      obtain ⟨n, y, hnext, hQ⟩ := hnext a m (hP a rfl)
      refine ⟨max m n, y, ?_, hQ⟩
      intro d
      show read d >>= next d = _
      rw [hread]
      by_cases hm : m ≤ d
      · rw [if_pos hm]
        refine (hnext d).trans ?_
        simp only [Nat.max_le, hm, true_and]
      · rw [if_neg hm, if_neg (by omega)]
        rfl

theorem mono {P' : α → Nat → Prop} (h : CutOff P read) (hPP' : ∀ a n, P a n → P' a n) :
    CutOff P' read := by
  obtain ⟨n, x, hread, hP⟩ := h
  exact ⟨n, x, hread, fun a ha => hPP' a n (hP a ha)⟩

/-- A reader whose results are told apart by what is taken from them. -/
theorem of_map {g : α → β} (hg : Function.Injective g) (h : CutOff Q (fun d => g <$> read d))
    (hQP : ∀ a n, Q (g a) n → P a n) : CutOff P read := by
  obtain ⟨n, x, hread, hQ⟩ := h
  refine ⟨n, read n, ?_, ?_⟩
  · intro d
    have hd : g <$> read d = if n ≤ d then x else .error (.nestingTooDeep d) := hread d
    have hn : g <$> read n = x := (hread n).trans (if_pos (Nat.le_refl n))
    by_cases hle : n ≤ d
    · rw [if_pos hle, ← hn] at hd
      rw [if_pos hle]
      exact Text.map_injective hg hd
    · rw [if_neg hle] at hd ⊢
      exact Text.map_eq_error_iff.mp hd
  · intro a ha
    refine hQP a n (hQ (g a) ?_)
    have hn : g <$> read n = x := (hread n).trans (if_pos (Nat.le_refl n))
    rw [← hn, ha]
    rfl

/-- A limit cuts off, or gives what every larger one gives. -/
theorem error_or_eq (h : CutOff P read) {d d' : Nat} (hd : d ≤ d') :
    read d = .error (.nestingTooDeep d) ∨ read d = read d' := by
  obtain ⟨n, x, hread, -⟩ := h
  by_cases hn : n ≤ d
  · right
    rw [hread, hread, if_pos hn, if_pos (Nat.le_trans hn hd)]
  · left
    rw [hread, if_neg hn]

/-- The limits that allow a text which is accepted under one of them. -/
theorem isOk_iff {m : Nat} (h : CutOff (fun _ n => n = m) read) {d : Nat} {a : α}
    (ha : read d = .ok a) (d' : Nat) : (∃ b, read d' = .ok b) ↔ m ≤ d' := by
  obtain ⟨n, x, hread, hm⟩ := h
  have hx : x = .ok a := by
    rw [hread] at ha
    split at ha
    · exact ha
    · cases ha
  obtain rfl : n = m := hm a hx
  rw [hread, hx]
  constructor
  · rintro ⟨b, hb⟩
    by_contra hd
    rw [if_neg hd] at hb
    cases hb
  · intro hd
    exact ⟨a, if_pos hd⟩

end CutOff

/-! ### Groups on the stack of marks -/

/-- Is the mark an open group? -/
def Mark.isGroup : Mark → Bool
  | .group _ => true
  | .join _ => false

namespace Level

/-- There is no group among junctions. -/
theorem countP_isGroup_map_join (js : List Junction) :
    (js.map Mark.join).countP Mark.isGroup = 0 := by
  simp [List.countP_eq_zero, Mark.isGroup]

/-- Folding back to a group takes this one off the marks and no other. -/
theorem foldRuns_groups {run : Run} {marks marks' : List Mark} {operands operands' : List Filter}
    {negated : Bool} (h : foldRuns run marks operands = .ok (some negated, marks', operands')) :
    marks.countP Mark.isGroup = marks'.countP Mark.isGroup + 1 := by
  obtain ⟨js, rfl, -⟩ := foldRuns_marks h
  rw [List.countP_append, countP_isGroup_map_join, Nat.zero_add]
  exact List.countP_cons_of_pos rfl

theorem foldAnds_groups {members : List Filter} {marks marks' : List Mark}
    {operands operands' : List Filter}
    (h : foldAnds members marks operands = .ok (marks', operands')) :
    marks'.countP Mark.isGroup = marks.countP Mark.isGroup := by
  obtain ⟨n, rfl, -⟩ := foldAnds_marks h
  have hjunctions : (List.replicate n (Mark.join .and)).countP Mark.isGroup = 0 := by
    simp [List.countP_replicate, Mark.isGroup]
  rw [List.countP_append, hjunctions, Nat.zero_add]

/-- The level counts the groups on its stack of marks, and is at the outermost depth just where it
has no brackets. -/
structure Tracked (l : Level) : Prop where
  groups : l.openGroups = l.marks.countP Mark.isGroup
  bracket : l.bracket = none ↔ l.depth = 0

variable {l l' : Level}

theorem Tracked.push (h : l.Tracked) (f : Filter) : (l.push f).Tracked :=
  ⟨h.groups, h.bracket⟩

theorem Tracked.opened (h : l.Tracked) (negated : Bool) : (l.opened negated).Tracked :=
  ⟨by rw [Level.opened, h.groups, List.countP_cons_of_pos rfl], h.bracket⟩

theorem Tracked.join (h : l.Tracked) {j : Junction} (hjoin : l.join j = .ok l') :
    l'.Tracked ∧ l'.depth = l.depth ∧ l'.nesting = l.nesting := by
  cases j with
  | and =>
      cases hjoin
      exact ⟨⟨h.groups, h.bracket⟩, rfl, rfl⟩
  | or =>
      obtain ⟨⟨marks, operands⟩, hfold, hjoin⟩ := Text.bind_eq_ok_iff.mp hjoin
      cases hjoin
      exact ⟨⟨h.groups.trans (foldAnds_groups hfold).symm, h.bracket⟩, rfl, rfl⟩

/-- Closing a group makes up for opening it. -/
theorem Tracked.closeGroup (h : l.Tracked) {position : Nat}
    (hclose : l.closeGroup position = .ok l') :
    l'.Tracked ∧ l'.depth = l.depth ∧ l'.nesting + 1 = l.nesting := by
  obtain ⟨negated, marks, operands, operands', hfold, -, rfl⟩ := closeGroup_cases hclose
  have hgroups : l.openGroups = marks.countP Mark.isGroup + 1 :=
    h.groups.trans (foldRuns_groups hfold)
  refine ⟨⟨?groups, h.bracket⟩, rfl, ?nesting⟩
  case groups =>
    show l.openGroups - 1 = marks.countP Mark.isGroup
    rw [hgroups, Nat.add_sub_cancel]
  case nesting =>
    show l.depth + (l.openGroups - 1) + 1 = l.depth + l.openGroups
    omega

/-- Where a filter ends, all of its groups are closed. -/
theorem Tracked.finish (h : l.Tracked) {f : Filter} (hfinish : l.finish = .ok f) :
    l.nesting = l.depth := by
  obtain ⟨js, rest, hmarks, -, -⟩ := finish_cases hfinish
  rw [nesting, h.groups, hmarks, countP_isGroup_map_join, Nat.add_zero]

end Level

/-! ### Runs -/

/-- Each level is one deeper than the one that it suspends, and the outermost is at depth `base`. -/
inductive Level.Stacked (base : Nat) : Level → List (Path × Level) → Prop where
  | outermost {l : Level} : l.Tracked → l.depth = base → Stacked base l []
  | inside {l l' : Level} {path : Path} {outer : List (Path × Level)} :
      l.Tracked → l.depth = l'.nesting + 1 → Stacked base l' outer →
        Stacked base l ((path, l') :: outer)

namespace Level.Stacked

variable {base : Nat} {l l' : Level} {outer : List (Path × Level)}

theorem tracked (h : Stacked base l outer) : l.Tracked := by
  cases h with
  | outermost htracked => exact htracked
  | inside htracked => exact htracked

/-- Without brackets, a level is the outermost one of a filter by itself. -/
theorem base_eq_zero (h : Stacked base l outer) (hbracket : l.bracket = none) : base = 0 := by
  cases h with
  | outermost htracked hbase => exact hbase ▸ htracked.bracket.mp hbracket
  | inside htracked hinside => exact absurd (htracked.bracket.mp hbracket) (by omega)

/-- What is done in a level does not touch those around it. -/
theorem replace (h : Stacked base l outer) (htracked : l'.Tracked) (hdepth : l'.depth = l.depth) :
    Stacked base l' outer := by
  cases h with
  | outermost _ hbase => exact .outermost htracked (hdepth.trans hbase)
  | inside _ hinside houter => exact .inside htracked (hdepth.trans hinside) houter

end Level.Stacked

namespace Reading

variable {base : Nat} {maxLength : Option Nat} {r : Reading}

/-- What a phrase leads to has `n` delimiters open. -/
def Leaves (base n : Nat) : Progress → Prop
  | .more r => r.level.Stacked base r.outer ∧ r.level.nesting = n
  | .done _ => n + 1 = base

theorem bracket_of_finish {f : Filter} (h : r.finish = .ok f) : r.level.bracket = none := by
  unfold finish at h
  split at h
  · cases h
  · assumption

theorem closeValue_leaves {progress : Progress} (hr : r.level.Stacked base r.outer)
    (hregion : r.level.region = .valueFilter) (h : r.closeValue = .ok progress) :
    Leaves base (r.level.nesting - 1) progress := by
  obtain ⟨l, outer⟩ := r
  obtain ⟨f, hfinish, h⟩ := Text.bind_eq_ok_iff.mp h
  have hnesting : l.nesting = l.depth := hr.tracked.finish hfinish
  cases hr with
  | outermost htracked hbase =>
      cases h
      have hdepth : l.depth ≠ 0 := by
        intro hzero
        rw [Level.region, htracked.bracket.mpr hzero] at hregion
        cases hregion
      obtain rfl : l.depth = base := hbase
      show l.nesting - 1 + 1 = l.depth
      omega
  | inside htracked hinside houter =>
      cases h
      refine ⟨houter.replace (houter.tracked.push _) rfl, ?_⟩
      show _ = l.nesting - 1
      rw [hnesting, hinside]
      rfl

/-- **A phrase opens and closes as its delimiters say**, and is cut off by the limit only where it
opens more than the limit allows. -/
theorem step_cutOff (hr : r.level.Stacked base r.outer) (phrase : Phrase)
    (hclose : phrase = .closeValue → r.level.region = .valueFilter) :
    CutOff (fun progress n =>
        Leaves base (phrase.delimiters.foldl openAfter r.level.nesting) progress ∧
          mostOpen r.level.nesting phrase.delimiters = max r.level.nesting n)
      (fun d => r.step ⟨maxLength, d⟩ phrase) := by
  have htracked := hr.tracked
  cases phrase with
  | operand f =>
      refine .const (fun _ => rfl) ?_
      rintro _ ⟨⟩
      exact ⟨⟨hr.replace (htracked.push f) rfl, rfl⟩, (Nat.max_zero _).symm⟩
  | openGroup negated =>
      simp only [step, Level.openGroup_deepen, bind_assoc]
      refine (CutOff.deepen maxLength r.level.nesting).bind ?_
      rintro _ m rfl
      refine .const (fun _ => rfl) ?_
      rintro _ ⟨⟩
      exact ⟨⟨hr.replace (htracked.opened negated) rfl, rfl⟩, rfl⟩
  | openValue path position =>
      obtain ⟨l, outer⟩ := r
      simp only [step, openValue_deepen, bind_assoc]
      refine (CutOff.deepen maxLength l.nesting).bind ?_
      rintro _ m rfl
      refine .const (fun _ => rfl) ?_
      rintro _ ⟨⟩
      refine ⟨⟨.inside ⟨rfl, by simp⟩ rfl hr, rfl⟩, rfl⟩
  | closeGroup position =>
      refine .const (fun _ => rfl) ?_
      intro progress h
      obtain ⟨l', hl', h⟩ := Text.bind_eq_ok_iff.mp h
      cases h
      obtain ⟨htracked', hdepth, hnesting⟩ := htracked.closeGroup hl'
      exact ⟨⟨hr.replace htracked' hdepth, Nat.eq_sub_of_add_eq hnesting⟩, mostOpen_closing rfl⟩
  | join j =>
      refine .const (fun _ => rfl) ?_
      intro progress h
      obtain ⟨l', hl', h⟩ := Text.bind_eq_ok_iff.mp h
      cases h
      obtain ⟨htracked', hdepth, hnesting⟩ := htracked.join hl'
      exact ⟨⟨hr.replace htracked' hdepth, hnesting⟩, (Nat.max_zero _).symm⟩
  | closeValue =>
      refine .const (fun _ => rfl) ?_
      intro progress h
      exact ⟨closeValue_leaves hr (hclose rfl) h, mostOpen_closing rfl⟩

/-- **What a run reads opens and closes as its delimiters say**, up to the end of the text or to the
bracket that closes the outermost level. -/
theorem run_cutOff (maxLength : Option Nat) : ∀ {base : Nat} {r : Reading} {c : Cursor},
    r.level.Stacked base r.outer →
      CutOff (fun found n =>
          ∃ m, Spans c.rest r.level.nesting n found.2.rest m ∧
            (base = 0 ∧ found.2.rest = [] ∨ m + 1 = base))
        (fun d => r.run ⟨maxLength, d⟩ c)
  | base, r, c, hr => by
      -- by induction on what is left of the text, where `Stacked` is kept by each phrase
      cases hphrase : Phrase.read r.level.region r.level.operandDue c with
      | error e =>
          exact .const (fun _ => run_error hphrase) (fun _ h => nomatch h)
      | ok found =>
          cases found with
          | none =>
              -- the text ends, where no brackets are open
              have htoken := Phrase.read_eq_none_iff.mp hphrase
              refine .const (fun _ => run_end htoken) ?_
              intro found h
              obtain ⟨f, hfinish, h⟩ := Text.bind_eq_ok_iff.mp h
              cases h
              refine ⟨r.level.nesting, ⟨[], ?_, rfl, (Nat.max_zero _).symm⟩, .inl ⟨?_, rfl⟩⟩
              · exact Token.delimiters_of_read_none htoken
              · exact hr.base_eq_zero (bracket_of_finish hfinish)
          | some found =>
              obtain ⟨phrase, next⟩ := found
              have := Phrase.read_length hphrase
              have hdelimiters := Phrase.read_delimiters hphrase
              simp only [run_phrase hphrase]
              refine (step_cutOff hr phrase ?_).bind ?_
              · rintro rfl
                exact Phrase.region_of_read_closeValue hphrase
              · rintro progress n ⟨hleaves, hmost⟩
                have hspans : Spans c.rest r.level.nesting n next.rest
                    (phrase.delimiters.foldl openAfter r.level.nesting) :=
                  ⟨phrase.delimiters, hdelimiters, rfl, hmost⟩
                cases progress with
                | done f =>
                    refine .const (fun _ => rfl) ?_
                    rintro _ ⟨⟩
                    rw [Nat.max_zero]
                    exact ⟨_, hspans, .inr hleaves⟩
                | more r' =>
                    obtain ⟨hr', hnesting⟩ := hleaves
                    -- what the phrase leaves open is what the rest of the run starts with
                    rw [← hnesting] at hspans
                    refine (run_cutOff maxLength hr').mono ?_
                    rintro found n' ⟨m, hrest, hend⟩
                    exact ⟨m, hspans.trans hrest, hend⟩
termination_by _ _ c => c.rest.length

end Reading

/-- A filter that takes up the rest of a text. -/
theorem Filter.read_cutOff (maxLength : Option Nat) (c : Cursor) :
    CutOff (fun _ n => n = openMost c.rest)
      (fun d => Filter.read ⟨maxLength, d⟩ c) := by
  have hlevel : Level.Stacked 0 { bracket := none, depth := 0 } [] :=
    .outermost ⟨rfl, by simp⟩ rfl
  refine (Reading.run_cutOff maxLength hlevel).mono ?_
  rintro ⟨f, after⟩ n ⟨m, hspans, ⟨-, hrest⟩ | hbase⟩
  · have hdelimiters : delimiters after.rest = [] := by
      rw [show after.rest = [] from hrest]
      rfl
    exact ((hspans.mostOpen_eq hdelimiters).trans (Nat.zero_max n)).symm
  · cases hbase

/-- A value filter of a path, with the bracket that opens it. -/
theorem Filter.readWithin_cutOff (maxLength : Option Nat) (opened : Nat) (c : Cursor) :
    CutOff (fun found n => Spans ('[' :: c.rest) 0 n found.2.val.rest 0)
      (fun d => Filter.readWithin ⟨maxLength, d⟩ opened c) := by
  have hlevel : Level.Stacked 1 { bracket := some opened, depth := 1 } [] :=
    .outermost ⟨rfl, by simp⟩ rfl
  have hread (d : Nat) :
      (fun found => (found.1, found.2.1)) <$> Filter.readWithin ⟨maxLength, d⟩ opened c =
        Limits.deepen ⟨maxLength, d⟩ 0 >>= fun _ =>
          Reading.run ⟨maxLength, d⟩ ⟨{ bracket := some opened, depth := 1 }, []⟩ c := by
    rw [Filter.map_readWithin, Limits.deepen]
    simp only [Nat.le_zero]
    split <;> rfl
  refine CutOff.of_map (g := fun found => (found.1, found.2.1)) ?_
    (Q := fun found n => Spans ('[' :: c.rest) 0 n found.2.rest 0) ?_ (fun _ _ h => h)
  · rintro ⟨f, next, hnext⟩ ⟨f', next', hnext'⟩ heq
    cases heq
    rfl
  · simp only [hread]
    refine (CutOff.deepen maxLength 0).bind ?_
    rintro _ m rfl
    refine (Reading.run_cutOff maxLength hlevel).mono ?_
    rintro found n ⟨m, hspans, ⟨hbase, -⟩ | hbase⟩
    · cases hbase
    · obtain rfl : m = 0 := Nat.succ.inj hbase
      have hopen : Spans ('[' :: c.rest) 0 (0 + 1) c.rest 1 :=
        ⟨['['], Text.delimiters_cons_delimiter rfl _, rfl, rfl⟩
      exact hopen.trans hspans

/-! ### Paths -/

namespace Path

/-- A piece of a path has no delimiter but the bracket behind it. -/
theorem Piece.read_delimiters {c : Cursor} {piece : Piece} (h : Piece.read c = .ok (some piece)) :
    delimiters c.rest =
      delimiters (if piece.opens then '[' :: piece.next.rest else piece.next.rest) := by
  obtain ⟨k, cs⟩ := c
  obtain ⟨w, s, rfl, hw, hs⟩ := Text.exists_run Text.isNameChar cs
  have hneutral : Text.Neutral w :=
    Text.neutral_of_plain fun c hc =>
      Text.plain_of_isWordChar (Text.isWordChar_of_isNameChar (hw c hc))
  refine (hneutral s).trans ?_
  cases s with
  | nil =>
      rw [List.append_nil, Piece.read_end hw] at h
      split at h
      · cases h
      · cases h
        rfl
  | cons d s =>
      rw [Piece.read_cons hw (hs d rfl)] at h
      split at h
      · rename_i hopen
        subst hopen
        cases h
        rfl
      · split at h
        · rename_i hdot
          obtain ⟨rfl, -⟩ := hdot
          split at h
          · cases h
          · cases h
            exact Text.delimiters_cons_plain (by decide) s
        · cases h

/-- A piece that adds no name is refused, or is a schema at the end of the text.  No value filter is
read then. -/
theorem readFrom_unnamed {acc : Option Path} {c : Cursor} {piece : Piece}
    (h : Piece.read c = .ok (some piece)) (hname : (attach acc piece.name).2 = []) :
    ∃ x, (∀ within, readFrom within acc false c = x) ∧
      ∀ found, x = .ok found → piece.opens = false ∧ piece.next.rest = [] := by
  refine ⟨readFrom (fun opened _ => .error (.unclosedBracket opened)) acc false c, ?_, ?_⟩
  · intro within
    rw [readFrom_some h, readFrom_some h, hname]
    rfl
  · intro found hfound
    rw [readFrom_some h, hname] at hfound
    split at hfound
    · cases hfound
    · dsimp only [List.isEmpty_nil] at hfound
      rw [if_pos rfl] at hfound
      split at hfound
      · rename_i urn hurn hopens
        have hsplit : splitSchema piece.name = (some urn, []) := Prod.ext hurn hname
        obtain ⟨hword, -, -⟩ := splitSchema_eq_some hsplit
        refine ⟨hopens, ?_⟩
        -- the schema ends with its colon, which no dot may follow
        by_contra hrest
        exact (Piece.read_name h).2 hopens hrest (by simp [hword])
      · cases hfound

/-- **A path opens and closes as its delimiters say.** -/
theorem readFrom_cutOff (maxLength : Option Nat) : ∀ (acc : Option Path) (due : Bool) (c : Cursor),
    CutOff (fun _ n => Spans c.rest 0 n [] 0)
      (fun d => readFrom (Filter.readWithin ⟨maxLength, d⟩) acc due c)
  | acc, due, c => by
      cases hpiece : Piece.read c with
      | error e =>
          exact .const (fun _ => readFrom_of_error hpiece) (fun _ h => nomatch h)
      | ok found =>
          cases found with
          | none =>
              rw [Piece.rest_of_read_none hpiece]
              exact .const (fun _ => readFrom_of_none hpiece) (fun _ _ => .refl (Nat.le_refl 0))
          | some piece =>
              have := Piece.read_length hpiece
              have hdelimiters := Piece.read_delimiters hpiece
              obtain ⟨w, opens, k, next⟩ := piece
              -- what follows a piece that opens nothing
              have skip (hopens : opens = false) (acc : Option Path) :
                  CutOff (fun _ n => Spans c.rest 0 n [] 0)
                    (fun d => readFrom (Filter.readWithin ⟨maxLength, d⟩) acc false next) := by
                subst hopens
                exact (readFrom_cutOff maxLength acc false next).mono fun _ _ hrest =>
                  hrest.congr hdelimiters
              cases due with
              | true =>
                  simp only [readFrom_due_some hpiece]
                  split
                  · rename_i hdot
                    exact skip (Bool.eq_false_iff.mpr hdot.2) acc
                  · exact .const (fun _ => rfl) (fun _ h => nomatch h)
              | false =>
                  by_cases hname : (attach acc w).2 = []
                  · obtain ⟨x, hread, hx⟩ := readFrom_unnamed hpiece hname
                    refine .const (fun _ => hread _) ?_
                    intro found h
                    obtain ⟨hopens, hend⟩ := hx found h
                    subst hopens
                    have hnone : delimiters c.rest = delimiters [] := hend ▸ hdelimiters
                    exact (Spans.refl (Nat.le_refl 0)).congr hnone
                  · cases opens with
                    | true =>
                        simp only [readFrom_opens hpiece hname]
                        refine (Filter.readWithin_cutOff maxLength k next).bind ?_
                        intro found n hvalue
                        have := found.2.2
                        have hnext : next.rest.length < c.rest.length := Piece.read_length hpiece
                        exact (readFrom_cutOff maxLength _ true found.2.1).mono fun _ _ hrest =>
                          (hvalue.trans hrest).congr hdelimiters
                    | false =>
                        simp only [readFrom_piece hpiece (ne_nil_of_attach hname) hname]
                        exact skip rfl _
termination_by _ _ c => c.rest.length

end Path

/-! ### Whole texts -/

/-- A text is accepted under the limits that allow as many delimiters as are open in it at once, if
the rest of a text is. -/
theorem openText_cutOff {α : Type} {maxLength : Option Nat} {text : List Char}
    {read : Nat → Cursor → Except Error (α × Cursor)}
    (hread : ∀ c, CutOff (fun _ n => n = openMost c.rest) (fun d => read d c)) :
    CutOff (fun _ n => n = openMost text) (fun d =>
      openText ⟨maxLength, d⟩ text >>= fun c => read d c >>= fun found => .ok found.1) := by
  have hopen : CutOff (fun c n => n = 0 ∧ openMost c.rest = openMost text)
      (fun d => openText ⟨maxLength, d⟩ text) := by
    refine .const (x := openText ⟨maxLength, 0⟩ text) (fun _ => rfl) ?_
    intro c h
    exact ⟨rfl, congrArg (mostOpen 0) (Text.delimiters_of_openText h)⟩
  refine hopen.bind ?_
  rintro c m ⟨rfl, hc⟩
  refine (hread c).bind ?_
  rintro found n rfl
  refine .const (fun _ => rfl) ?_
  intro a _
  rw [hc, Nat.max_zero, Nat.zero_max]

theorem parseFilter_cutOff (maxLength : Option Nat) (text : String) :
    CutOff (fun _ n => n = openMost text.toList) (fun d => parseFilter ⟨maxLength, d⟩ text) :=
  openText_cutOff (Filter.read_cutOff maxLength)

theorem parsePath_cutOff (maxLength : Option Nat) (text : String) :
    CutOff (fun _ n => n = openMost text.toList) (fun d => parsePath ⟨maxLength, d⟩ text) := by
  have hread (c : Cursor) : CutOff (fun _ n => n = openMost c.rest)
      (fun d => Path.readFrom (Filter.readWithin ⟨maxLength, d⟩) none false c) := by
    refine (Path.readFrom_cutOff maxLength none false c).mono ?_
    intro _ n hspans
    exact ((hspans.mostOpen_eq rfl).trans (Nat.zero_max n)).symm
  exact openText_cutOff hread

/-- **The limit on nesting only cuts off.**  Under a limit, the result for a filter or a path is the
error that tells of the limit, or what every larger limit gives.  A text that is accepted under
some limit is accepted under those that allow as many groups and value filters as are open at once
in it, and no others. -/
theorem parse_nestingLimit (maxLength : Option Nat) (text : String) :
    (∀ d d', d ≤ d' →
      (parseFilter ⟨maxLength, d⟩ text = .error (.nestingTooDeep d) ∨
          parseFilter ⟨maxLength, d⟩ text = parseFilter ⟨maxLength, d'⟩ text) ∧
        (parsePath ⟨maxLength, d⟩ text = .error (.nestingTooDeep d) ∨
          parsePath ⟨maxLength, d⟩ text = parsePath ⟨maxLength, d'⟩ text)) ∧
    (∀ d f, parseFilter ⟨maxLength, d⟩ text = .ok f →
      ∀ d', (∃ g, parseFilter ⟨maxLength, d'⟩ text = .ok g) ↔ openMost text.toList ≤ d') ∧
    ∀ d p, parsePath ⟨maxLength, d⟩ text = .ok p →
      ∀ d', (∃ q, parsePath ⟨maxLength, d'⟩ text = .ok q) ↔ openMost text.toList ≤ d' := by
  have hfilter := parseFilter_cutOff maxLength text
  have hpath := parsePath_cutOff maxLength text
  refine ⟨?_, ?_, ?_⟩
  · intro d d' hd
    exact ⟨hfilter.error_or_eq hd, hpath.error_or_eq hd⟩
  · intro d f hf
    exact hfilter.isOk_iff hf
  · intro d p hp
    exact hpath.isOk_iff hp

/-- A filter, and a path as well: its string does not count, its groups and brackets do. -/
def nestedText : String :=
  "a[not (b eq \"((\" and c[(d pr)])]"

/-- The text has four groups and value filters open at once. -/
theorem parse_nestingLimit_nested :
    (∃ f, parseFilter {} nestedText = .ok f) ∧ (∃ p, parsePath {} nestedText = .ok p) ∧
      parseFilter { maxDepth := 3 } nestedText = .error (.nestingTooDeep 3) ∧
      parsePath { maxDepth := 3 } nestedText = .error (.nestingTooDeep 3) ∧
      ∀ d, ((∃ f, parseFilter { maxDepth := d } nestedText = .ok f) ↔ 4 ≤ d) ∧
        ((∃ p, parsePath { maxDepth := d } nestedText = .ok p) ↔ 4 ≤ d) := by
  have hopen : openMost nestedText.toList = 4 := by decide +kernel
  have hfilter : (parseFilter {} nestedText).toOption.isSome = true := by decide +kernel
  have hpath : (parsePath {} nestedText).toOption.isSome = true := by decide +kernel
  obtain ⟨f, hf⟩ := Option.isSome_iff_exists.mp hfilter
  obtain ⟨p, hp⟩ := Option.isSome_iff_exists.mp hpath
  rw [Text.toOption_eq_some_iff] at hf hp
  obtain ⟨hcut, hfilters, hpaths⟩ := parse_nestingLimit none nestedText
  have hfilters := hfilters 64 f hf
  have hpaths := hpaths 64 p hp
  rw [hopen] at hfilters hpaths
  have hthree := hcut 3 64 (by decide)
  refine ⟨⟨f, hf⟩, ⟨p, hp⟩, ?_, ?_, fun d => ⟨hfilters d, hpaths d⟩⟩
  · rcases hthree.1 with herror | hsame
    · exact herror
    · exact absurd ((hfilters 3).mp ⟨f, hsame.trans hf⟩) (by decide)
  · rcases hthree.2 with herror | hsame
    · exact herror
    · exact absurd ((hpaths 3).mp ⟨p, hsame.trans hp⟩) (by decide)

end ScimQuery
