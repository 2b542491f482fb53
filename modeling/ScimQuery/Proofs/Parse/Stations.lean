import Mathlib.Logic.Relation
import ScimQuery.Proofs.Filter.Local
import ScimQuery.Proofs.Filter.Nesting
import ScimQuery.Proofs.Filter.Shift
import ScimQuery.Proofs.Text.Progress

/-!
# Parse — the stations of reading

Reading a text goes from one station to the next (`Station.Next`): a station is what is read next, a
phrase of a filter, a token or a value inside a phrase, or a piece of a path, and the place where it
is read.  The stations of a text are those to which reading comes from its start
(`Station.Reached`), whether the text is accepted in the end or not.

* `Next.before`: each station is further on in the text than the one before it.
* `Next.run_eq`, `Next.readFrom_eq`: what is read from a station on is what is read from the next
  one on.
* `exists_last_phrase`, `exists_last_piece`: so reading comes to a last station, where its outcome
  is decided.
* `Reached.invariant`: what each phrase keeps holds at every station, by induction on the way to it.
-/

namespace ScimQuery

open Relation (ReflTransGen)
open Text (Cursor isKeyword)

/-! ### Pieces -/

namespace Path

theorem Piece.read_before {c : Cursor} {piece : Piece} (h : Piece.read c = .ok (some piece)) :
    c.Before piece.next := by
  obtain ⟨k, cs⟩ := c
  obtain ⟨w, s, rfl, hw, hs⟩ := Text.exists_run Text.isNameChar cs
  cases s with
  | nil =>
      rw [List.append_nil, Piece.read_end hw] at h
      split at h
      · cases h
      · rename_i hne
        cases h
        exact ⟨w, by simpa using hne, rfl, rfl⟩
  | cons d s =>
      have hbefore : Cursor.Before ⟨k, w ++ d :: s⟩ ⟨k + w.length + 1, s⟩ :=
        ⟨w ++ [d], by simp, by simp, by simp [Nat.add_assoc]⟩
      rw [Piece.read_cons hw (hs d rfl)] at h
      split at h
      · cases h
        exact hbefore
      · split at h
        · split at h
          · cases h
          · cases h
            exact hbefore
        · cases h

end Path

/-! ### Filters -/

/-- A run takes the text up to the place to which it comes, and a value filter its closing bracket
at least. -/
theorem Reading.run_takes {limits : Limits} {r : Reading} {c after : Cursor} {f : Filter}
    (h : r.run limits c = .ok (f, after)) :
    ∃ w, c.Takes w after ∧ (r.level.bracket ≠ none → w ≠ []) := by
  fun_induction run limits r c with
  | case1 => cases h
  | case2 => cases h
  | case3 r c hend f hfinish =>
      cases h
      exact ⟨c.rest, c.takes_end, fun hbracket => absurd (Reading.bracket_of_finish hfinish) hbracket⟩
  | case4 => cases h
  | case5 r c phrase next hread =>
      cases h
      obtain ⟨w, hw, htakes⟩ := (Phrase.read_eq_some_iff.mp hread).local.before
      exact ⟨w, htakes, fun _ => hw⟩
  | case6 r c phrase next hread _ r' hstep ih =>
      obtain ⟨v, hv, hphrase⟩ := (Phrase.read_eq_some_iff.mp hread).local.before
      obtain ⟨w, hrest, -⟩ := ih h
      exact ⟨v ++ w, hphrase.append hrest, fun _ => by simp [hv]⟩

/-- Reading a value filter takes something, at least its closing bracket. -/
theorem Filter.readWithin_before {limits : Limits} {opened : Nat} {c after : Cursor} {f : Filter}
    {h : after.rest.length ≤ c.rest.length}
    (hread : Filter.readWithin limits opened c = .ok (f, ⟨after, h⟩)) : c.Before after := by
  obtain ⟨-, hrun⟩ := Filter.readWithin_eq_ok_iff.mp hread
  obtain ⟨w, htakes, hne⟩ := Reading.run_takes hrun
  exact ⟨w, hne nofun, htakes⟩

/-! ### Stations -/

/-- What is read next, and where. -/
inductive Station where
  /-- A phrase of a filter. -/
  | phrase (r : Reading) (c : Cursor)
  /-- A token inside a phrase: the parenthesis behind `not`, or an operator. -/
  | token (region : Region) (c : Cursor)
  /-- The value of a comparison. -/
  | value (c : Cursor)
  /-- A piece of a path, behind what has been read of the path. -/
  | piece (path : Option Path) (dotDue : Bool) (c : Cursor)

namespace Station

/-- The place of the station. -/
def cursor : Station → Cursor
  | .phrase _ c => c
  | .token _ c => c
  | .value c => c
  | .piece _ _ c => c

/-- Where that which is read starts: a token starts behind spaces. -/
def mark : Station → Nat
  | .phrase _ c => (c.skipWhile (· == ' ')).position
  | .token _ c => (c.skipWhile (· == ' ')).position
  | .value c => c.position
  | .piece _ _ c => c.position

open ScimQuery.Path (Piece attach)

/-- The stations to which reading goes on from a station. -/
inductive Next (limits : Limits) : Station → Station → Prop where
  /-- A phrase is taken in. -/
  | phrase {r r' : Reading} {c next : Cursor} {phrase : Phrase} :
      Phrase.read r.level.region r.level.operandDue c = .ok (some (phrase, next)) →
        r.step limits phrase = .ok (.more r') → Next limits (.phrase r c) (.phrase r' next)
  /-- A `not` is read. -/
  | paren {r : Reading} {c next : Cursor} {w : List Char} {k : Nat} :
      r.level.operandDue = true →
        Token.read r.level.region c = .ok (some ⟨.word w, k, next⟩) → isKeyword w "not" = true →
          Next limits (.phrase r c) (.token r.level.region next)
  /-- The attribute of a condition is read. -/
  | operator {r : Reading} {c next : Cursor} {w : List Char} {k : Nat} {path : Path} :
      r.level.operandDue = true →
        Token.read r.level.region c = .ok (some ⟨.word w, k, next⟩) → isKeyword w "not" = false →
          Phrase.readPath w k = .ok path → Next limits (.phrase r c) (.token r.level.region next)
  /-- The attribute and the operator of a comparison are read. -/
  | value {r : Reading} {c next after : Cursor} {w o : List Char} {k m : Nat} {path : Path}
      {op : Operator} :
      r.level.operandDue = true →
        Token.read r.level.region c = .ok (some ⟨.word w, k, next⟩) → isKeyword w "not" = false →
          Phrase.readPath w k = .ok path →
            Token.read r.level.region next = .ok (some ⟨.word o, m, after⟩) →
              isKeyword o Operator.presentKeyword = false → Operator.ofKeyword? o = some op →
                Next limits (.phrase r c) (.value after)
  /-- The dot behind a value filter is read. -/
  | dot {path : Option Path} {c : Cursor} {piece : Piece} :
      Piece.read c = .ok (some piece) → piece.name = [] → piece.opens = false →
        Next limits (.piece path true c) (.piece path false piece.next)
  /-- An attribute is read. -/
  | name {path : Option Path} {c : Cursor} {piece : Piece} :
      Piece.read c = .ok (some piece) → (attach path piece.name).2 ≠ [] → piece.opens = false →
        Next limits (.piece path false c)
          (.piece (some ((attach path piece.name).1.sub
            (String.ofList (attach path piece.name).2))) false piece.next)
  /-- An attribute and the bracket that opens its value filter are read. -/
  | opens {path : Option Path} {c : Cursor} {piece : Piece} :
      Piece.read c = .ok (some piece) → (attach path piece.name).2 ≠ [] → piece.opens = true →
        limits.maxDepth ≠ 0 →
          Next limits (.piece path false c)
            (.phrase ⟨{ bracket := some piece.position, depth := 1 }, []⟩ piece.next)
  /-- An attribute and its value filter are read. -/
  | narrowed {path : Option Path} {c after : Cursor} {piece : Piece} {f : Filter}
      {h : after.rest.length ≤ piece.next.rest.length} :
      Piece.read c = .ok (some piece) → (attach path piece.name).2 ≠ [] → piece.opens = true →
        Filter.readWithin limits piece.position piece.next = .ok (f, ⟨after, h⟩) →
          Next limits (.piece path false c)
            (.piece (some ((attach path piece.name).1.subWhere
              (String.ofList (attach path piece.name).2) f)) true after)

variable {limits : Limits} {s s' : Station} {r r' : Reading} {path path' : Option Path}
  {due due' : Bool} {c c' : Cursor}

/-- **Each station is further on in the text** than the one before it. -/
theorem Next.before (h : Next limits s s') : s.cursor.Before s'.cursor := by
  cases h with
  | phrase hread => exact (Phrase.read_eq_some_iff.mp hread).local.before
  | paren _ htoken => exact (Token.read_local htoken).before
  | operator _ htoken => exact (Token.read_local htoken).before
  | value _ htoken _ _ hoperator =>
      exact (Token.read_local htoken).before.trans (Token.read_local hoperator).before
  | dot hpiece => exact Piece.read_before hpiece
  | name hpiece => exact Piece.read_before hpiece
  | opens hpiece => exact Piece.read_before hpiece
  | narrowed hpiece _ _ hfilter =>
      exact (Piece.read_before hpiece).trans (Filter.readWithin_before hfilter)

/-- What is read from a phrase on is what is read from the next one on. -/
theorem Next.run_eq (h : Next limits (.phrase r c) (.phrase r' c')) :
    r.run limits c = r'.run limits c' := by
  cases h with
  | phrase hread hstep =>
      rw [Reading.run_phrase hread, hstep]
      rfl

/-- What is read from a piece on is what is read from the next one on. -/
theorem Next.readFrom_eq (h : Next limits (.piece path due c) (.piece path' due' c')) :
    Path.readFrom (Filter.readWithin limits) path due c =
      Path.readFrom (Filter.readWithin limits) path' due' c' := by
  cases h with
  | dot hpiece hname hopens => simp [Path.readFrom_due_some hpiece, hname, hopens]
  | @name _ _ piece hpiece hname hopens =>
      have hne : piece.name ≠ [] := Path.ne_nil_of_attach hname
      simp [Path.readFrom_some hpiece, hname, hopens, hne]
  | narrowed hpiece hname hopens hfilter => simp [Path.readFrom_some hpiece, hname, hopens, hfilter]

/-! ### The last station -/

/-- **The phrases of a text come to an end**: there is a last one, and what is read from the first
one on is decided there. -/
theorem exists_last_phrase (limits : Limits) (r : Reading) (c : Cursor) :
    ∃ r' c', ReflTransGen (Next limits) (.phrase r c) (.phrase r' c') ∧
      (∀ r'' c'', ¬ Next limits (.phrase r' c') (.phrase r'' c'')) ∧
        r.run limits c = r'.run limits c' := by
  by_cases hlast : ∃ r' c', Next limits (.phrase r c) (.phrase r' c')
  · obtain ⟨r', c', hnext⟩ := hlast
    have : c'.rest.length < c.rest.length := hnext.before.length_lt
    obtain ⟨r'', c'', hreached, hend, hrun⟩ := exists_last_phrase limits r' c'
    exact ⟨r'', c'', .head hnext hreached, hend, hnext.run_eq.trans hrun⟩
  · simp only [not_exists] at hlast
    exact ⟨r, c, .refl, hlast, rfl⟩
termination_by c.rest.length

/-- **The pieces of a text come to an end**, too. -/
theorem exists_last_piece (limits : Limits) (path : Option Path) (due : Bool) (c : Cursor) :
    ∃ path' due' c', ReflTransGen (Next limits) (.piece path due c) (.piece path' due' c') ∧
      (∀ path'' due'' c'', ¬ Next limits (.piece path' due' c') (.piece path'' due'' c'')) ∧
        Path.readFrom (Filter.readWithin limits) path due c =
          Path.readFrom (Filter.readWithin limits) path' due' c' := by
  by_cases hlast : ∃ path' due' c', Next limits (.piece path due c) (.piece path' due' c')
  · obtain ⟨path', due', c', hnext⟩ := hlast
    have : c'.rest.length < c.rest.length := hnext.before.length_lt
    obtain ⟨path'', due'', c'', hreached, hend, hread⟩ := exists_last_piece limits path' due' c'
    exact ⟨path'', due'', c'', .head hnext hreached, hend, hnext.readFrom_eq.trans hread⟩
  · simp only [not_exists] at hlast
    exact ⟨path, due, c, .refl, hlast, rfl⟩
termination_by c.rest.length

/-- The station is one of those that reading the text comes to, as a filter or as a path. -/
def Reached (limits : Limits) (text : String) (s : Station) : Prop :=
  ∃ c, openText limits text.toList = .ok c ∧
    (ReflTransGen (Next limits) (.phrase .start c) s ∨
      ReflTransGen (Next limits) (.piece none false c) s)

/-- What holds where a filter or a value filter starts, and is kept by each phrase, holds at every
station that is a phrase. -/
theorem Reached.invariant {text : String} {P : Reading → Prop} (hstart : P .start)
    (hwithin : limits.maxDepth ≠ 0 →
      ∀ position, P ⟨{ bracket := some position, depth := 1 }, []⟩)
    (hstep : ∀ {r r' : Reading} {c next : Cursor} {phrase : Phrase}, P r →
      Phrase.Reads r.level.region r.level.operandDue c phrase next →
        r.step limits phrase = .ok (.more r') → P r')
    (h : Reached limits text (.phrase r c)) : P r := by
  have hnext {s s' : Station} (hs : ∀ r c, s = .phrase r c → P r) (h : Next limits s s') :
      ∀ r c, s' = .phrase r c → P r := by
    rintro r c rfl
    cases h with
    | phrase hread htaken => exact hstep (hs _ _ rfl) (Phrase.read_eq_some_iff.mp hread) htaken
    | opens _ _ _ hdepth => exact hwithin hdepth _
  have hreached {s s' : Station} (hs : ∀ r c, s = .phrase r c → P r)
      (h : ReflTransGen (Next limits) s s') : ∀ r c, s' = .phrase r c → P r := by
    induction h with
    | refl => exact hs
    | tail _ hlast ih => exact hnext ih hlast
  obtain ⟨c₀, -, h | h⟩ := h
  · refine hreached ?_ h r c rfl
    rintro _ _ ⟨⟩
    exact hstart
  · refine hreached ?_ h r c rfl
    rintro _ _ ⟨⟩

end Station

end ScimQuery
