import ScimQuery.Proofs.Filter.Keywords
import ScimQuery.Proofs.Filter.Precedence
import ScimQuery.Proofs.Literal.Local

/-!
# Filter — a text inside a longer text

Nothing that reads a part of a filter looks past it.  What has been read from a text is read
alike from that text further inside a longer one which goes on with a closing character: in a
value filter as in a filter, and at any depth from which the limit is as far away
(`sequence_within` and its companions, one for each rule of the grammar).
-/

namespace ScimQuery

open Text (Cursor isKeyword)

namespace Descent

/-- A text of a region, read at a depth under some limits, may stand in front of `tail` in
another region, at another depth under other limits. -/
structure Fits (limits limits' : Limits) (region region' : Region) (depth depth' : Nat)
    (tail : List Char) : Prop where
  /-- Every token of the text is a token there. -/
  region : region.le region'
  /-- There is as much room for further groups and value filters. -/
  room : limits'.maxDepth + depth = limits.maxDepth + depth'
  /-- The text around does not add to the text. -/
  shuts : Shuts region' tail

variable {limits limits' : Limits} {region region' : Region} {depth depth' : Nat}
  {tail : List Char} {c e : Cursor} {f : Filter} {j : Junction}

theorem Fits.deeper (h : Fits limits limits' region region' depth depth' tail) :
    Fits limits limits' region region' (depth + 1) (depth' + 1) tail :=
  ⟨h.region, by rw [← Nat.add_assoc, h.room, Nat.add_assoc], h.shuts⟩

theorem Fits.valueFilter (h : Fits limits limits' region region' depth depth' tail) :
    Fits limits limits' .valueFilter .valueFilter depth depth' tail := by
  obtain ⟨d, more, rfl, hd⟩ := h.shuts
  exact ⟨trivial, h.room, d, more, rfl, hd.imp_right fun hd => ⟨hd.1, rfl⟩⟩

theorem Fits.maxDepth_le_iff (h : Fits limits limits' region region' depth depth' tail) :
    limits'.maxDepth ≤ depth' ↔ limits.maxDepth ≤ depth := by
  have := h.room
  omega

/-! ### Tokens, values and conditions -/

theorem exists_read_of_token {t : Token} {next : After c}
    (h : token region c = some (some (t, next))) :
    ∃ k, Token.read region c = .ok (some ⟨t, k, next.1⟩) := by
  unfold token at h
  split at h
  · cases h
  · cases h
  · rename_i l hread
    cases h
    exact ⟨l.position, hread⟩

theorem read_of_token_end (h : token region c = some none) : Token.read region c = .ok none := by
  unfold token at h
  split at h
  · cases h
  · assumption
  · cases h

theorem Fits.read (before : Nat) (hfits : Fits limits limits' region region' depth depth' tail)
    {l : Token.Lexeme} (h : Token.read region c = .ok (some l)) :
    Token.read region' (c.within before tail) = .ok (some (l.within before tail)) :=
  Token.read_within hfits.region hfits.shuts.closes.ends hfits.shuts.no_space before h

theorem token_within (before : Nat)
    (hfits : Fits limits limits' region region' depth depth' tail) {t : Token} {next : Cursor}
    {hnext : next.rest.length < c.rest.length}
    (h : token region c = some (some (t, ⟨next, hnext⟩))) :
    ∃ hnext', token region' (c.within before tail) =
      some (some (t, ⟨next.within before tail, hnext'⟩)) := by
  obtain ⟨k, hread⟩ := exists_read_of_token h
  have hread' := hfits.read before hread
  exact ⟨Token.read_length hread', token_of_some hread'⟩

theorem value_within (before : Nat)
    (hfits : Fits limits limits' region region' depth depth' tail) {v : Value}
    {he : e.rest.length ≤ c.rest.length} (h : value c = some (v, ⟨e, he⟩)) :
    ∃ he', value (c.within before tail) = some (v, ⟨e.within before tail, he'⟩) := by
  unfold value at h
  split at h
  · rename_i literal hscan
    cases h
    have hscan' := Literal.scan_append hscan hfits.shuts.closes.isEnd hfits.shuts.no_space
    have hskip := Cursor.skip_within (Literal.length_le_of_scan hscan) before tail
    refine ⟨hskip ▸ Cursor.length_skip_le _ _, ?_⟩
    unfold value
    simp only [Cursor.within_rest, hscan', hskip]
  · cases h

theorem condition_within (before : Nat)
    (hfits : Fits limits limits' region region' depth depth' tail)
    {w : List Char} {he : e.rest.length ≤ c.rest.length}
    (h : condition region w c = some (f, ⟨e, he⟩)) :
    ∃ he', condition region' w (c.within before tail) =
      some (f, ⟨e.within before tail, he'⟩) := by
  unfold condition at h
  split at h
  · rename_i p op next hnext hpath htoken
    obtain ⟨hnext', htoken'⟩ := token_within before hfits htoken
    unfold condition
    simp only [hpath, htoken']
    split at h
    · rename_i hpr
      cases h
      exact ⟨Nat.le_of_lt hnext', if_pos hpr⟩
    · rename_i hpr
      split at h
      · rename_i operator v after hafter hop hvalue
        cases h
        obtain ⟨hafter', hvalue'⟩ := value_within before hfits hvalue
        refine ⟨Nat.le_of_lt (Nat.lt_of_le_of_lt hafter' hnext'), ?_⟩
        simp only [if_neg hpr, hop, hvalue']
      · cases h
  · cases h

/-- Where no keyword of the junction comes next, none does inside the longer text: a text at its
end is followed by what closes the text around it. -/
theorem stops_within (before : Nat) (hfits : Fits limits limits' region region' depth depth' tail)
    {found : Option Token.Lexeme} (hread : Token.read region c = .ok found)
    (hstop : Stops region j c) :
    ∃ found', Token.read region' (c.within before tail) = .ok found' ∧
      Stops region' j (c.within before tail) := by
  cases found with
  | none =>
      -- what closes the text around is no word
      obtain ⟨t, next, htoken, hword⟩ := hfits.shuts.read (c.position + c.rest.length + before)
      rw [← Token.read_within_none before hread] at htoken
      refine ⟨_, htoken, ?_⟩
      intro w k next' h
      rw [htoken] at h
      cases h
      exact absurd rfl (hword w)
  | some l =>
      have hread' := hfits.read before hread
      refine ⟨_, hread', ?_⟩
      intro w k next h
      obtain ⟨t, place, after⟩ := l
      rw [hread'] at h
      cases h
      exact hstop w place after hread

/-! ### Terms from their parts -/

variable {next inner : Cursor} {hnext : next.rest.length < c.rest.length}
  {hinner : inner.rest.length < next.rest.length} {w : List Char}

theorem enclosed_of_sequence {close : Token} {d : Cursor} {hd : d.rest.length ≤ c.rest.length}
    {he : e.rest.length < d.rest.length} (hdepth : ¬ limits.maxDepth ≤ depth)
    (hsequence : sequence limits region (depth + 1) .or c = some (f, ⟨d, hd⟩))
    (htoken : token region d = some (some (close, ⟨e, he⟩))) :
    ∃ he', enclosed limits region close depth c = some (f, ⟨e, he'⟩) := by
  refine ⟨Nat.le_of_lt (Nat.lt_of_lt_of_le he hd), ?_⟩
  rw [enclosed, if_neg hdepth]
  simp only [hsequence, htoken, if_true]

theorem term_of_group {he : e.rest.length ≤ next.rest.length}
    (htoken : token region c = some (some (.openParen, ⟨next, hnext⟩)))
    (henclosed : enclosed limits region .closeParen depth next = some (f, ⟨e, he⟩)) :
    ∃ he', term limits region depth c = some (f, ⟨e, he'⟩) := by
  refine ⟨Nat.le_of_lt (Nat.lt_of_le_of_lt he hnext), ?_⟩
  rw [term]
  simp only [htoken, henclosed]

theorem term_of_negated {he : e.rest.length ≤ inner.rest.length}
    (htoken : token region c = some (some (.word w, ⟨next, hnext⟩)))
    (hnot : isKeyword w "not" = true)
    (hparen : token region next = some (some (.openParen, ⟨inner, hinner⟩)))
    (henclosed : enclosed limits region .closeParen depth inner = some (f, ⟨e, he⟩)) :
    ∃ he', term limits region depth c = some (.not f, ⟨e, he'⟩) := by
  refine ⟨Nat.le_of_lt (Nat.lt_of_le_of_lt he (Nat.lt_trans hinner hnext)), ?_⟩
  rw [term]
  simp only [htoken, if_pos hnot, hparen, henclosed]

theorem term_of_condition {he : e.rest.length ≤ next.rest.length}
    (htoken : token region c = some (some (.word w, ⟨next, hnext⟩)))
    (hnot : ¬ isKeyword w "not" = true)
    (hcondition : condition region w next = some (f, ⟨e, he⟩)) :
    ∃ he', term limits region depth c = some (f, ⟨e, he'⟩) := by
  refine ⟨Nat.le_of_lt (Nat.lt_of_le_of_lt he hnext), ?_⟩
  rw [term]
  simp only [htoken, if_neg hnot, hcondition]

theorem term_of_value {he : e.rest.length ≤ next.rest.length} {p : Path}
    (htoken : token region c = some (some (.valuePath w, ⟨next, hnext⟩)))
    (hpath : path w = some p)
    (henclosed : enclosed limits .valueFilter .closeBracket depth next = some (f, ⟨e, he⟩)) :
    ∃ he', term limits region depth c = some (.complex p f, ⟨e, he'⟩) := by
  refine ⟨Nat.le_of_lt (Nat.lt_of_le_of_lt he hnext), ?_⟩
  rw [term]
  simp only [htoken, hpath, henclosed]

/-! ### The rules of the grammar -/

mutual

theorem sequence_within (before : Nat) {region region' : Region} {depth depth' : Nat}
    (hfits : Fits limits limits' region region' depth depth' tail) {c e : Cursor} {f : Filter}
    {j : Junction} {he : e.rest.length ≤ c.rest.length}
    (h : sequence limits region depth j c = some (f, ⟨e, he⟩)) :
    ∃ he', sequence limits' region' depth' j (c.within before tail) =
      some (f, ⟨e.within before tail, he'⟩) := by
  rw [sequence] at h
  split at h
  · cases h
  · rename_i g d hd hitem
    split at h
    · cases h
    · rename_i fs d' hd' hmore
      cases h
      obtain ⟨hle, hitem'⟩ := item_within before hfits hitem
      obtain ⟨hle', hmore'⟩ := more_within before hfits hmore
      refine ⟨Nat.le_trans hle' hle, ?_⟩
      rw [sequence]
      simp only [hitem', hmore']
termination_by (c.rest.length, match j with | .or => 5 | .and => 3)
decreasing_by
  · cases j <;> decreasing_tactic
  · exact Prod.Lex.right' _ (by assumption) (by cases j <;> decide)

theorem item_within (before : Nat) {region region' : Region} {depth depth' : Nat}
    (hfits : Fits limits limits' region region' depth depth' tail) {c e : Cursor} {f : Filter}
    {j : Junction} {he : e.rest.length ≤ c.rest.length}
    (h : item limits region depth j c = some (f, ⟨e, he⟩)) :
    ∃ he', item limits' region' depth' j (c.within before tail) =
      some (f, ⟨e.within before tail, he'⟩) := by
  cases j with
  | or =>
      rw [item] at h ⊢
      exact sequence_within before hfits h
  | and =>
      rw [item] at h ⊢
      exact term_within before hfits h
termination_by (c.rest.length, match j with | .or => 4 | .and => 2)

theorem more_within (before : Nat) {region region' : Region} {depth depth' : Nat}
    (hfits : Fits limits limits' region region' depth depth' tail) {c e : Cursor}
    {fs : List Filter} {j : Junction} {he : e.rest.length ≤ c.rest.length}
    (h : more limits region depth j c = some (fs, ⟨e, he⟩)) :
    ∃ he', more limits' region' depth' j (c.within before tail) =
      some (fs, ⟨e.within before tail, he'⟩) := by
  rcases item_cases region j c with ⟨e, hread⟩ | ⟨w, k, next, hread, hw⟩ | ⟨⟨found, hread⟩, hstop⟩
  · rw [more_of_error hread] at h
    cases h
  · have hnext : next.rest.length < c.rest.length := Token.read_length hread
    obtain ⟨hnext', htoken'⟩ := token_within before hfits (token_of_some hread)
    rw [more] at h
    simp only [token_of_some hread, if_pos hw] at h
    split at h
    · cases h
    · rename_i g d hd hitem
      split at h
      · cases h
      · rename_i gs d' hd' hmore
        cases h
        obtain ⟨hle, hitem'⟩ := item_within before hfits hitem
        obtain ⟨hle', hmore'⟩ := more_within before hfits hmore
        refine ⟨Nat.le_of_lt (Nat.lt_of_le_of_lt (Nat.le_trans hle' hle) hnext'), ?_⟩
        rw [more]
        simp only [htoken', if_pos hw, hitem', hmore']
  · rw [more_of_stops hread hstop] at h
    cases h
    obtain ⟨found', hread', hstop'⟩ := stops_within before hfits hread hstop
    exact ⟨Nat.le_refl _, more_of_stops hread' hstop'⟩
termination_by (c.rest.length, 0)

theorem term_within (before : Nat) {region region' : Region} {depth depth' : Nat}
    (hfits : Fits limits limits' region region' depth depth' tail) {c e : Cursor} {f : Filter}
    {he : e.rest.length ≤ c.rest.length}
    (h : term limits region depth c = some (f, ⟨e, he⟩)) :
    ∃ he', term limits' region' depth' (c.within before tail) =
      some (f, ⟨e.within before tail, he'⟩) := by
  rw [term] at h
  split at h
  · rename_i next hnext htoken
    obtain ⟨hnext', htoken'⟩ := token_within before hfits htoken
    split at h
    · cases h
    · rename_i g d hd henclosed
      cases h
      obtain ⟨hle, henclosed'⟩ := enclosed_within before hfits henclosed
      exact term_of_group htoken' henclosed'
  · rename_i w next hnext htoken
    obtain ⟨hnext', htoken'⟩ := token_within before hfits htoken
    split at h
    · rename_i hnot
      split at h
      · rename_i inner hinner hparen
        obtain ⟨hinner', hparen'⟩ := token_within before hfits hparen
        split at h
        · cases h
        · rename_i g d hd henclosed
          cases h
          obtain ⟨hle, henclosed'⟩ := enclosed_within before hfits henclosed
          exact term_of_negated htoken' hnot hparen' henclosed'
      · cases h
    · rename_i hnot
      split at h
      · cases h
      · rename_i g d hd hcondition
        cases h
        obtain ⟨hle, hcondition'⟩ := condition_within before hfits hcondition
        exact term_of_condition htoken' hnot hcondition'
  · rename_i w next hnext htoken
    obtain ⟨hnext', htoken'⟩ := token_within before hfits htoken
    split at h
    · rename_i p g d hd hpath henclosed
      cases h
      obtain ⟨hle, henclosed'⟩ := enclosed_within before hfits.valueFilter henclosed
      -- in brackets the regions are the same on both sides
      exact term_of_value htoken' hpath henclosed'
    · cases h
  · cases h
termination_by (c.rest.length, 1)

theorem enclosed_within (before : Nat) {region region' : Region} {depth depth' : Nat}
    (hfits : Fits limits limits' region region' depth depth' tail) {c e : Cursor} {f : Filter}
    {close : Token} {he : e.rest.length ≤ c.rest.length}
    (h : enclosed limits region close depth c = some (f, ⟨e, he⟩)) :
    ∃ he', enclosed limits' region' close depth' (c.within before tail) =
      some (f, ⟨e.within before tail, he'⟩) := by
  rw [enclosed] at h
  split at h
  · cases h
  · rename_i hdepth
    have hdepth' : ¬ limits'.maxDepth ≤ depth' := fun hle => hdepth (hfits.maxDepth_le_iff.mp hle)
    split at h
    · cases h
    · rename_i g d hd hsequence
      split at h
      · rename_i t d' hd' htoken
        split at h
        · rename_i hclose
          cases h
          obtain ⟨hle, hsequence'⟩ := sequence_within before hfits.deeper hsequence
          obtain ⟨hlt, htoken'⟩ := token_within before hfits htoken
          exact hclose ▸ enclosed_of_sequence hdepth' hsequence' htoken'
        · cases h
      · cases h
termination_by (c.rest.length, 6)

end

end Descent

end ScimQuery
