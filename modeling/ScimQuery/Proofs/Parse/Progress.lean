import ScimQuery.Proofs.Filter.Balance
import ScimQuery.Proofs.Parse.Stations

/-!
# Parse — reading goes on, and to the end

Every reader that succeeds comes to a later place (`Advances`), and so does reading as a whole from
each station to the next.  So reading stays inside its text, ends after as many stations as there
are characters at most, whether the text is accepted or not, and where it is accepted, nothing of it
is left (`parse_progress`).

* `Reached.inText`: every station is a place of the text, by induction on the way to it.
* `length_le_of_chain`: what is left to read is a measure.
* `Path.eq_end_of_readFrom`, `Filter.eq_end_of_read`: an accepted text is read to its end.  A path is
  so at its last station, also where that is a schema by itself.
-/

namespace ScimQuery

open Relation (ReflTransGen)
open Station (Next Reached)
open Text (Cursor)

variable {limits : Limits} {text : List Char} {s s' : Station}

/-! ### Places of the text -/

namespace Station

/-- What is read starts at the place of the station, or behind spaces there. -/
theorem mark_le (h : s.cursor.InText text) : s.mark ≤ text.length := by
  have hspaces (c : Cursor) (hc : c.InText text) :
      (c.skipWhile (· == ' ')).position ≤ text.length :=
    ((c.takes_skipWhile _).inText hc).inside
  cases s with
  | phrase r c => exact hspaces c h
  | token region c => exact hspaces c h
  | value c => exact h.inside
  | piece path due c => exact h.inside

/-- From a place of the text, reading comes to its places only. -/
theorem inText_of_next (hs : s.cursor.InText text) (h : ReflTransGen (Next limits) s s') :
    s'.cursor.InText text := by
  induction h with
  | refl => exact hs
  | tail _ hnext ih => exact hnext.before.inText ih

theorem inText_of_openText {cs : List Char} {c : Cursor} (h : openText limits cs = .ok c) :
    c.InText (Text.trimEnd cs) := by
  obtain ⟨rfl, -⟩ := openText_eq_ok h
  exact (Cursor.takes_skipWhile _ _).inText (Cursor.inText_start _)

/-- **Every station is a place of the text** without the blanks at its end. -/
theorem Reached.inText {text : String} (h : Reached limits text s) :
    s.cursor.InText (Text.trimEnd text.toList) := by
  obtain ⟨c, hopen, h⟩ := h
  have hc := inText_of_openText hopen
  rcases h with h | h
  · exact inText_of_next (s := .phrase .start c) hc h
  · exact inText_of_next (s := .piece none false c) hc h

/-- What comes after a station to which reading comes, comes after the one where it starts. -/
theorem before_of_next {c : Cursor} (h : ReflTransGen (Next limits) s s')
    (hc : s'.cursor.Before c) : s.cursor.Before c := by
  induction h using ReflTransGen.head_induction_on with
  | refl => exact hc
  | head hnext _ ih => exact hnext.before.trans ih

/-- **What is left to read is a measure**: no more stations follow than there are characters. -/
theorem length_le_of_chain {more : List Station} (h : (s :: more).IsChain (Next limits)) :
    more.length ≤ s.cursor.rest.length := by
  induction more generalizing s with
  | nil => exact Nat.zero_le _
  | cons s' more ih =>
      obtain ⟨hnext, hmore⟩ := List.isChain_cons_cons.mp h
      exact Nat.lt_of_le_of_lt (ih hmore) hnext.before.length_lt

end Station

/-! ### The end of the text -/

/-- At a piece that adds no name, a path that is read ends, and its text as well. -/
theorem Path.end_of_unnamed {path : Option Path} {c after : Cursor} {p : Path} {piece : Piece}
    {within : Within} (hpiece : Piece.read c = .ok (some piece))
    (hname : (attach path piece.name).2 = [])
    (h : readFrom within path false c = .ok (p, after)) :
    after = piece.next ∧ after.rest = [] := by
  obtain ⟨x, hx, hend⟩ := readFrom_unnamed hpiece hname
  obtain ⟨hopens, hrest⟩ := hend _ ((hx within).symm.trans h)
  obtain ⟨w, _, k, next⟩ := piece
  obtain rfl := hopens
  obtain ⟨rfl, hw, urn, hsplit, -⟩ := readFrom_nameless hpiece hname h
  rw [readFrom_schema hpiece hw hsplit] at h
  cases h
  exact ⟨rfl, hrest⟩

/-- Where a dot is due, and at a piece that adds a name, a path that is read goes on. -/
theorem Path.exists_next_piece {path : Option Path} {due : Bool} {c : Cursor} {piece : Piece}
    {found : Path × Cursor} (hpiece : Piece.read c = .ok (some piece))
    (hname : due = false → (attach path piece.name).2 ≠ [])
    (h : Path.readFrom (Filter.readWithin limits) path due c = .ok found) :
    ∃ path' due' c', Next limits (.piece path due c) (.piece path' due' c') := by
  cases due with
  | true =>
      rw [readFrom_due_some hpiece] at h
      split at h
      · rename_i hdot
        exact ⟨_, _, _, .dot hpiece (by simpa using hdot.1) (by simpa using hdot.2)⟩
      · cases h
  | false =>
      specialize hname rfl
      cases hopens : piece.opens with
      | false => exact ⟨_, _, _, .name hpiece hname hopens⟩
      | true =>
          cases hfilter : Filter.readWithin limits piece.position piece.next with
          | error e => simp [readFrom_some hpiece, hname, hopens, hfilter] at h
          | ok found => exact ⟨_, _, _, .narrowed hpiece hname hopens hfilter⟩

/-- **A path that is read takes the whole text.** -/
theorem Path.eq_end_of_readFrom {path : Option Path} {due : Bool} {c after : Cursor} {p : Path}
    (hc : c.InText text)
    (h : Path.readFrom (Filter.readWithin limits) path due c = .ok (p, after)) :
    after = ⟨text.length, []⟩ := by
  -- what is read is decided at the last station, where no piece follows or a schema by itself
  obtain ⟨path, due, c, hreached, hlast, hread⟩ := Station.exists_last_piece limits path due c
  replace hc : c.InText text := Station.inText_of_next hc hreached
  rw [hread] at h
  cases hpiece : Piece.read c with
  | error e =>
      rw [readFrom_of_error hpiece] at h
      cases h
  | ok found =>
      cases found with
      | none =>
          rw [readFrom_of_none hpiece] at h
          cases h
          exact hc.eq_end (Piece.rest_of_read_none hpiece)
      | some piece =>
          by_cases hname : due = false → (attach path piece.name).2 ≠ []
          · obtain ⟨path', due', c', hnext⟩ := exists_next_piece hpiece hname h
            exact absurd hnext (hlast path' due' c')
          · obtain ⟨rfl, hunnamed⟩ := Classical.not_imp.mp hname
            obtain ⟨rfl, hrest⟩ := end_of_unnamed hpiece (not_not.mp hunnamed) h
            exact ((Piece.read_before hpiece).inText hc).eq_end hrest

/-- **A filter that is read takes the whole text.** -/
theorem Filter.eq_end_of_read {c after : Cursor} {f : Filter} (hc : c.InText text)
    (h : Filter.read limits c = .ok (f, after)) : after = ⟨text.length, []⟩ := by
  have hlevel : Level.Stacked 0 { bracket := none, depth := 0 } [] :=
    .outermost ⟨rfl, by simp⟩ rfl
  obtain ⟨w, htakes, -⟩ := Reading.run_takes h
  obtain ⟨n, m, -, ⟨-, hrest⟩ | hbase⟩ :=
    (Reading.run_cutOff limits.maxLength hlevel).exists_of_ok h
  · exact (htakes.inText hc).eq_end hrest
  · cases hbase

/-! ### Whole texts -/

/-- Every reader that succeeds comes to a later place. -/
structure Advances (limits : Limits) : Prop where
  /-- A token, which starts behind spaces, also if the character that ends it is left unread. -/
  token : ∀ region c lexeme, Token.read region c = .ok (some lexeme) →
    c.Before lexeme.next ∧ lexeme.position = (Station.token region c).mark
  /-- A piece of a path. -/
  piece : ∀ c piece, Path.Piece.read c = .ok (some piece) →
    c.Before piece.next ∧ piece.position = c.position
  /-- The value of a comparison. -/
  value : ∀ c v after, Phrase.readValue c = .ok (v, after) → c.Before after
  /-- The value filter of a path. -/
  valueFilter : ∀ opened c f after h,
    Filter.readWithin limits opened c = .ok (f, ⟨after, h⟩) → c.Before after
  /-- The phrases from a station on, as those of a value filter up to the bracket that closes it. -/
  phrases : ∀ r c r' c' phrase after, ReflTransGen (Next limits) (.phrase r c) (.phrase r' c') →
    Phrase.read r'.level.region r'.level.operandDue c' = .ok (some (phrase, after)) →
      c.Before after
  /-- Each station on the way to another one. -/
  station : ∀ s s', Next limits s s' → s.cursor.Before s'.cursor

theorem Token.position_of_read {region : Region} {c : Cursor} {l : Lexeme}
    (h : Token.read region c = .ok (some l)) :
    l.position = (c.skipWhile (· == ' ')).position := by
  unfold Token.read at h
  dsimp only at h
  split at h
  · split at h <;> cases h
    rfl
  · split at h
    · cases h
      rfl
    split at h
    · cases h
      rfl
    split at h
    · split at h <;> cases h <;> rfl
    · cases h

theorem Path.Piece.position_of_read {c : Cursor} {piece : Piece}
    (h : Piece.read c = .ok (some piece)) : piece.position = c.position := by
  unfold Piece.read at h
  dsimp only at h
  split at h
  · split at h <;> cases h
    rfl
  · split at h
    · cases h
      rfl
    split at h
    · split at h <;> cases h
      rfl
    · cases h

theorem advances (limits : Limits) : Advances limits where
  token _ _ _ h := ⟨(Token.read_local h).before, Token.position_of_read h⟩
  piece _ _ h := ⟨Path.Piece.read_before h, Path.Piece.position_of_read h⟩
  value _ _ _ h := (Phrase.readValue_local h).before
  valueFilter _ _ _ _ _ h := Filter.readWithin_before h
  phrases _ _ _ _ _ _ h hread :=
    Station.before_of_next h (Phrase.read_eq_some_iff.mp hread).local.before
  station _ _ h := h.before

/-- **Reading goes on, and to the end.**  Every reader that succeeds comes to a later place.  Reading
stays inside the text without the blanks at its end, as the reading of a word stays inside the word.
It ends, after as many stations as characters are left at most, and it is decided at the last one.
Where the text is accepted, it has been read to its end. -/
theorem parse_progress (limits : Limits) (text : String) :
    Advances limits ∧
    (∀ s, Reached limits text s → s.cursor.InText (Text.trimEnd text.toList) ∧
      s.mark ≤ (Text.trimEnd text.toList).length) ∧
    (∀ word s, ReflTransGen (Next limits) (.piece none false (.start word)) s →
      s.cursor.InText word ∧ s.mark ≤ word.length) ∧
    (∀ s more, (s :: more).IsChain (Next limits) → more.length ≤ s.cursor.rest.length) ∧
    (∀ r c, ∃ r' c', ReflTransGen (Next limits) (.phrase r c) (.phrase r' c') ∧
      (∀ r'' c'', ¬ Next limits (.phrase r' c') (.phrase r'' c'')) ∧
        r.run limits c = r'.run limits c') ∧
    (∀ path due c, ∃ path' due' c',
      ReflTransGen (Next limits) (.piece path due c) (.piece path' due' c') ∧
        (∀ path'' due'' c'', ¬ Next limits (.piece path' due' c') (.piece path'' due'' c'')) ∧
          Path.readFrom (Filter.readWithin limits) path due c =
            Path.readFrom (Filter.readWithin limits) path' due' c') ∧
    (∀ f, parseFilter limits text = .ok f → ∃ c, openText limits text.toList = .ok c ∧
      Filter.read limits c = .ok (f, ⟨(Text.trimEnd text.toList).length, []⟩)) ∧
    ∀ p, parsePath limits text = .ok p → ∃ c, openText limits text.toList = .ok c ∧
      Path.readFrom (Filter.readWithin limits) none false c =
        .ok (p, ⟨(Text.trimEnd text.toList).length, []⟩) := by
  refine ⟨advances limits, ?_, ?_, fun _ _ => Station.length_le_of_chain,
    Station.exists_last_phrase limits, Station.exists_last_piece limits, ?_, ?_⟩
  · intro s h
    exact ⟨h.inText, Station.mark_le h.inText⟩
  · intro word s h
    have hs := Station.inText_of_next (s := .piece none false (.start word))
      (Cursor.inText_start word) h
    exact ⟨hs, Station.mark_le hs⟩
  · intro f h
    obtain ⟨c, hopen, h⟩ := Text.bind_eq_ok_iff.mp h
    obtain ⟨⟨g, after⟩, hread, h⟩ := Text.bind_eq_ok_iff.mp h
    cases h
    exact ⟨c, hopen, Filter.eq_end_of_read (Station.inText_of_openText hopen) hread ▸ hread⟩
  · intro p h
    obtain ⟨c, hopen, h⟩ := Text.bind_eq_ok_iff.mp h
    obtain ⟨⟨q, after⟩, hread, h⟩ := Text.bind_eq_ok_iff.mp h
    cases h
    exact ⟨c, hopen, Path.eq_end_of_readFrom (Station.inText_of_openText hopen) hread ▸ hread⟩

/-- A schema by itself with blanks around it is read to its end.  The reading of a value filter that
is not closed ends inside its text, too. -/
theorem parse_progress_schema :
    (∃ p c, parsePath {} " urn:a: " = .ok p ∧ openText {} " urn:a: ".toList = .ok c ∧
      Path.readFrom (Filter.readWithin {}) none false c = .ok (p, ⟨7, []⟩)) ∧
    ∃ r c, Reached {} " a[not ( " (.phrase r c) ∧
      (∀ r' c', ¬ Next {} (.phrase r c) (.phrase r' c')) ∧
        c.position ≤ 8 ∧ (Station.phrase r c).mark ≤ 8 := by
  constructor
  · have hparse : (parsePath {} " urn:a: ").toOption.isSome = true := by decide +kernel
    obtain ⟨p, hp⟩ := Option.isSome_iff_exists.mp hparse
    rw [Text.toOption_eq_some_iff] at hp
    obtain ⟨-, -, -, -, -, -, -, hpath⟩ := parse_progress {} " urn:a: "
    obtain ⟨c, hopen, hread⟩ := hpath p hp
    have hlength : (Text.trimEnd " urn:a: ".toList).length = 7 := by decide
    exact ⟨p, c, hp, hopen, hlength ▸ hread⟩
  · have hopen : openText {} " a[not ( ".toList = .ok ⟨1, "a[not (".toList⟩ := by decide +kernel
    have hpiece : Path.Piece.read ⟨1, "a[not (".toList⟩ =
        .ok (some ⟨['a'], true, 1, ⟨3, "not (".toList⟩⟩) := by decide +kernel
    have hopens : Next {} (.piece none false ⟨1, "a[not (".toList⟩)
        (.phrase ⟨{ bracket := some 1, depth := 1 }, []⟩ ⟨3, "not (".toList⟩) :=
      .opens hpiece (by decide) rfl (by decide)
    obtain ⟨r, c, hreached, hlast, -⟩ := Station.exists_last_phrase {} _ _
    have hphrase : Reached {} " a[not ( " (.phrase r c) :=
      ⟨_, hopen, .inr (.head hopens hreached)⟩
    obtain ⟨-, hplaces, -⟩ := parse_progress {} " a[not ( "
    have hlength : (Text.trimEnd " a[not ( ".toList).length = 8 := by decide
    obtain ⟨hinside, hmark⟩ := hplaces _ hphrase
    rw [hlength] at hmark
    exact ⟨r, c, hphrase, hlast, hlength ▸ hinside.inside, hmark⟩

end ScimQuery
