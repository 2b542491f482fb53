import ScimQuery.Proofs.Filter.WellFormed
import ScimQuery.Proofs.Path.Places
import ScimQuery.Proofs.Text.Outcome

/-!
# Filter — where a filter is refused

An error names places of the text that was handed in, blanks in front of it included, and what it
tells of them is true (`parse_error_places`).  Every reader below a filter comes to a place of the
text or points into it (`Located`), a whole run by one step after the other:

* `Token.read_located`: a token stands where it says (`Token.StandsAt`), and the character that
  ends no token is where it is said to be.
* `Phrase.read_located`: a phrase is refused where it stands, or where its part does.
* `Level.Starved.located`: folding is no matter of places.
* `Reading.step_located`, `Reading.run_located`: the brackets that are open stand in the text
  (`Reading.OpenedIn`), so that one that is not closed can be shown.
-/

namespace ScimQuery

open Error (OpensAt)
open ScimQuery.Path (WordAt)
open Text (Cursor isBlank isWordChar isWordChar_eq_false)

variable {limits : Limits} {text : List Char}

/-! ### Tokens -/

namespace Token

/-- What stands in the text at the place of a token. -/
def StandsAt (text : List Char) (p : Nat) : Token → Prop
  | .openParen => text[p]? = some '('
  | .closeParen => text[p]? = some ')'
  | .closeBracket => text[p]? = some ']'
  | .word w => WordAt text p w
  | .valuePath w =>
      (∀ c ∈ w, isWordChar c = true) ∧ ∃ s, Cursor.PlaceOf text ⟨p, w ++ '[' :: s⟩

theorem isPrefix_of_getElem? {c : Char} {p : Nat} (h : text[p]? = some c) :
    [c] <+: text.drop p := by
  obtain ⟨hp, rfl⟩ := List.getElem?_eq_some_iff.mp h
  rw [List.drop_eq_getElem_cons hp]
  exact ⟨_, rfl⟩

/-- The text of a token stands at its place. -/
theorem StandsAt.text_isPrefix {t : Token} {p : Nat} (h : t.StandsAt text p) :
    t.text.toList <+: text.drop p := by
  cases t with
  | openParen => exact isPrefix_of_getElem? h
  | closeParen => exact isPrefix_of_getElem? h
  | closeBracket => exact isPrefix_of_getElem? h
  | word w =>
      obtain ⟨s, hplace, -⟩ := h.stands
      simpa [Token.text] using hplace.isPrefix
  | valuePath w =>
      obtain ⟨-, s, hplace⟩ := h
      have hparts : Cursor.PlaceOf text ⟨p, (w ++ ['[']) ++ s⟩ := by rwa [List.append_assoc]
      simpa [Token.text] using hparts.isPrefix

theorem StandsAt.inside {t : Token} {p : Nat} (h : t.StandsAt text p) : p < text.length := by
  cases t with
  | openParen => exact (List.getElem?_eq_some_iff.mp h).1
  | closeParen => exact (List.getElem?_eq_some_iff.mp h).1
  | closeBracket => exact (List.getElem?_eq_some_iff.mp h).1
  | word w => exact (WordAt.inside h).2
  | valuePath w =>
      obtain ⟨-, s, hplace⟩ := h
      exact hplace.lt_length (by simp)

/-- A token that makes no sense at its place. -/
theorem StandsAt.unexpected {t : Token} {p : Nat} (h : t.StandsAt text p) :
    (Error.unexpectedToken t.text p).PointsInto limits text :=
  .of_place rfl h.inside h.text_isPrefix

/-- No token but an opening parenthesis starts with one, and none with a blank. -/
theorem StandsAt.head {t : Token} {p : Nat} (h : t.StandsAt text p) (ht : t ≠ .openParen) :
    ∃ c, text[p]? = some c ∧ isBlank c = false ∧ c ≠ '(' := by
  have hword {c : Char} (hc : isWordChar c = true) : isBlank c = false ∧ c ≠ '(' := by
    refine ⟨Text.isBlank_eq_false hc, ?_⟩
    rintro rfl
    rw [isWordChar_eq_false (by simp)] at hc
    cases hc
  cases t with
  | openParen => exact absurd rfl ht
  | closeParen => exact ⟨')', h, by decide, by decide⟩
  | closeBracket => exact ⟨']', h, by decide, by decide⟩
  | word w =>
      obtain ⟨s, hplace, -⟩ := h.stands
      obtain ⟨c, w, rfl⟩ := List.exists_cons_of_ne_nil h.ne_nil
      exact ⟨c, hplace.getElem?_eq, hword (h.isWord c (by simp))⟩
  | valuePath w =>
      obtain ⟨hw, s, hplace⟩ := h
      cases w with
      | nil => exact ⟨'[', hplace.getElem?_eq, by decide, by decide⟩
      | cons c w => exact ⟨c, hplace.getElem?_eq, hword (hw c (by simp))⟩

/-- An attribute in front of a bracket is a word, and the bracket comes after it. -/
theorem StandsAt.valuePath {w : List Char} {p : Nat} (h : (Token.valuePath w).StandsAt text p)
    (hne : w ≠ []) : WordAt text p w ∧ OpensAt text p := by
  have hprefix := h.text_isPrefix
  obtain ⟨hw, s, hplace⟩ := h
  have hstop : ∀ d ∈ ('[' :: s).head?, isWordChar d = false := by
    simp [isWordChar_eq_false]
  exact ⟨⟨hne, hw, _, hplace, hstop⟩, w, hne, hw, by simpa [Token.text] using hprefix⟩

theorem read_spaces {region : Region} {p : Nat} {spaces cs : List Char}
    (h : ∀ c ∈ spaces, c = ' ') :
    read region ⟨p, spaces ++ cs⟩ = read region ⟨p + spaces.length, cs⟩ := by
  induction spaces generalizing p with
  | nil => rfl
  | cons c spaces ih =>
      obtain rfl := h c (by simp)
      rw [List.cons_append, read_space, ih (fun c hc => h c (by simp [hc])), List.length_cons,
        Nat.add_assoc, Nat.add_comm 1]

/-- A delimiter is the token of its character. -/
theorem standsAt_delimiter {region : Region} {p : Nat} {d : Char} {t : Token}
    (ht : ofDelimiter? region d = some t) (h : text[p]? = some d) : t.StandsAt text p := by
  rcases ofDelimiter?_cases ht with ⟨rfl, rfl⟩ | ⟨rfl, rfl⟩ | ⟨rfl, rfl, -⟩ <;> exact h

theorem read_located {region : Region} {c : Cursor} (hc : c.PlaceOf text) :
    Located limits text (fun found => ∀ l ∈ found,
      l.token.StandsAt text l.position ∧ l.next.PlaceOf text) (read region c) := by
  obtain ⟨p, cs⟩ := c
  obtain ⟨spaces, cs, rfl, hspaces, hcs⟩ := Text.exists_run (· == ' ') cs
  rw [read_spaces (fun c hc => by simpa using hspaces c hc)]
  obtain ⟨w, s, rfl, hw, hs⟩ := Text.exists_run isWordChar cs
  have hstart := hc.append
  have hstop := hstart.append
  have hword (hne : w ≠ []) : WordAt text (p + spaces.length) w := ⟨hne, hw, s, hstart, hs⟩
  cases s with
  | nil =>
      rw [List.append_nil, read_run_nil hw]
      split
      · simp [Located]
      · rename_i hne
        rintro l ⟨⟩
        exact ⟨hword (by simpa using hne), hstop⟩
  | cons d s =>
      have hspace : w = [] → d ≠ ' ' := by
        rintro rfl rfl
        simpa using hcs ' ' rfl
      rw [read_run_cons hw (hs d rfl) hspace]
      split
      · rename_i hd
        rintro l ⟨⟩
        exact ⟨hword (fun hempty => hspace hempty hd), hstop.tail⟩
      · split
        · rename_i hopen
          subst hopen
          rintro l ⟨⟩
          exact ⟨⟨hw, s, hstart⟩, hstop.tail⟩
        · split
          · rename_i t ht
            split
            · rename_i hempty
              obtain rfl : w = [] := by simpa using hempty
              rintro l ⟨⟩
              exact ⟨standsAt_delimiter ht hstart.getElem?_eq, hstop.tail⟩
            · rename_i hne
              rintro l ⟨⟩
              exact ⟨hword (by simpa using hne), hstop⟩
          · exact Error.pointsInto_unexpectedCharacter hstart hw

end Token

/-! ### Phrases -/

namespace Phrase

/-- What a phrase is about stands at its place. -/
def StandsIn (text : List Char) : Phrase → Prop
  | .openValue _ position => OpensAt text position
  | .closeGroup position => text[position]? = some ')'
  | _ => True

theorem readPath_located {word : List Char} {p : Nat} (hword : WordAt text p word)
    (hallows : limits.Allows text) :
    Located limits text (fun _ => True) (readPath word p) := by
  unfold readPath
  split
  · rename_i e herror
    exact Path.ofWord_error hword hallows herror
  · trivial

theorem readValue_located {c : Cursor} (hc : c.PlaceOf text) :
    Located limits text (fun found => found.2.PlaceOf text) (readValue c) := by
  unfold readValue
  split
  · rename_i fault hscan
    have hrest : c.rest ≠ [] := by
      intro hempty
      rw [hempty] at hscan
      cases hscan
    exact .of_place rfl (hc.lt_length hrest) trivial
  · exact .of_placeless rfl
  · exact hc.skip _

theorem readCondition_located {region : Region} {word : List Char} {p : Nat} {c : Cursor}
    (hword : WordAt text p word) (hallows : limits.Allows text) (hc : c.PlaceOf text) :
    Located limits text (fun found => found.2.PlaceOf text) (readCondition region word p c) := by
  have hread : Located limits text _ (Token.read region c) := Token.read_located hc
  have hunknown {t : Token} {place : Nat} {suggestion : Option String}
      (ht : t.StandsAt text place) :
      (Error.unknownOperator t.text place suggestion).PointsInto limits text :=
    .of_place rfl ht.inside ht.text_isPrefix
  unfold readCondition
  split
  · rename_i e herror
    exact (readPath_located hword hallows).error herror
  · split
    · rename_i e herror
      exact hread.error herror
    · exact .of_placeless rfl
    · rename_i op place next htoken
      obtain ⟨hop, hnext⟩ := hread.ok htoken _ rfl
      split
      · exact hnext
      · split
        · exact hunknown hop
        · have hvalue : Located limits text _ (readValue next) := readValue_located hnext
          split
          · rename_i e herror
            exact hvalue.error herror
          · rename_i v after hread
            exact hvalue.ok hread
    · rename_i token place next _ htoken
      exact hunknown (hread.ok htoken _ rfl).1

theorem readNegated_located {region : Region} {c : Cursor} (hc : c.PlaceOf text) :
    Located limits text (fun found => found.1.StandsIn text ∧ found.2.PlaceOf text)
      (readNegated region c) := by
  have hread : Located limits text _ (Token.read region c) := Token.read_located hc
  unfold readNegated
  split
  · rename_i e herror
    exact hread.error herror
  · exact .of_placeless rfl
  · rename_i place next htoken
    exact ⟨trivial, (hread.ok htoken _ rfl).2⟩
  · rename_i token place next hne htoken
    have htoken := (hread.ok htoken _ rfl).1
    refine .of_place rfl htoken.inside (htoken.head ?_)
    rintro rfl
    exact hne rfl

theorem readOperand_located {region : Region} {token : Token} {p : Nat} {next : Cursor}
    (htoken : token.StandsAt text p) (hallows : limits.Allows text) (hnext : next.PlaceOf text) :
    Located limits text (fun found => found.1.StandsIn text ∧ found.2.PlaceOf text)
      (readOperand region token p next) := by
  unfold readOperand
  split
  · exact ⟨trivial, hnext⟩
  · split
    · exact readNegated_located hnext
    · split
      · rename_i e herror
        exact (readCondition_located htoken hallows hnext).error herror
      · rename_i f after hcondition
        exact ⟨trivial, (readCondition_located htoken hallows hnext).ok hcondition⟩
  · rename_i w
    split
    · exact .of_place rfl htoken.inside trivial
    · rename_i hne
      obtain ⟨hword, hopens⟩ := htoken.valuePath (by simpa using hne)
      split
      · rename_i e herror
        exact (readPath_located hword hallows).error herror
      · exact ⟨hopens, hnext⟩
  · exact htoken.unexpected
  · exact htoken.unexpected

theorem ofToken_located {token : Token} {p : Nat} (htoken : token.StandsAt text p) :
    Located limits text (StandsIn text) (ofToken token p) := by
  cases token with
  | closeParen => exact htoken
  | closeBracket => trivial
  | word w =>
      simp only [ofToken]
      split
      · trivial
      · split
        · trivial
        · exact htoken.unexpected
  | openParen => exact htoken.unexpected
  | valuePath w => exact htoken.unexpected

/-- **A phrase that is refused is refused where it stands**, and one that is read leads to a
place of the text. -/
theorem read_located {region : Region} {due : Bool} {c : Cursor} (hallows : limits.Allows text)
    (hc : c.PlaceOf text) :
    Located limits text
      (fun found => ∀ x ∈ found, x.1.StandsIn text ∧ x.2.PlaceOf text) (read region due c) := by
  have hread : Located limits text _ (Token.read region c) := Token.read_located hc
  unfold read
  split
  · rename_i e herror
    exact hread.error herror
  · simp [Located]
  · rename_i token p next htoken
    obtain ⟨htoken, hnext⟩ := hread.ok htoken _ rfl
    split
    · split
      · rename_i e herror
        exact (readOperand_located htoken hallows hnext).error herror
      · rename_i found hfound
        rintro x ⟨⟩
        exact (readOperand_located htoken hallows hnext).ok hfound
    · have hphrase : Located limits text _ (ofToken token p) := ofToken_located htoken
      split
      · rename_i e herror
        exact hphrase.error herror
      · rename_i phrase hread
        rintro x ⟨⟩
        exact ⟨hphrase.ok hread, hnext⟩

end Phrase

/-! ### Levels

Folding fails for want of operands only, which is no matter of places. -/

namespace Level

variable {l : Level}

theorem Starved.located {α : Type} {x : Except Error α} (h : Text.RefusesFor Starved x) :
    Located limits text (fun _ => True) x := by
  cases x with
  | ok a => trivial
  | error e =>
      obtain rfl : e = .unexpectedEndOfFilter := h e rfl
      exact .of_placeless rfl

/-- A level stays the filter by itself or the value filter that it is. -/
theorem openGroup_located (negated : Bool) :
    Located limits text (fun l' => l'.bracket = l.bracket) (l.openGroup limits negated) := by
  unfold openGroup
  split
  · exact .of_placeless rfl
  · rfl

theorem closeGroup_located {position : Nat} (h : text[position]? = some ')') :
    Located limits text (fun l' => l'.bracket = l.bracket) (l.closeGroup position) := by
  refine (Starved.located (foldRuns_refuses met_none l.marks l.operands)).bind ?_
  rintro ⟨group, marks, operands⟩ -
  match group with
  | none =>
      exact .of_place rfl (List.getElem?_eq_some_iff.mp h).1 h
  | some false => rfl
  | some true => exact (Starved.located (pop_refuses operands)).bind (fun _ _ => rfl)

theorem join_located (j : Junction) :
    Located limits text (fun l' => l'.bracket = l.bracket) (l.join j) := by
  cases j with
  | and => rfl
  | or => exact (Starved.located (foldAnds_refuses [] l.marks l.operands)).bind (fun _ _ => rfl)

theorem finish_located : Located limits text (fun _ => True) l.finish := by
  refine (Starved.located (foldRuns_refuses met_none l.marks l.operands)).bind ?_
  rintro ⟨group, marks, operands⟩ -
  cases group with
  | none => exact (Starved.located (pop_refuses operands)).bind (fun _ _ => trivial)
  | some negated => exact .of_placeless rfl

end Level

/-! ### The filter and those around it -/

/-- The brackets of the value filters that are read, the innermost one and those around it, stand
in the text behind the names of their attributes. -/
structure Reading.OpenedIn (text : List Char) (r : Reading) : Prop where
  level : ∀ p ∈ r.level.bracket, OpensAt text p
  outer : ∀ e ∈ r.outer, ∀ p ∈ e.2.bracket, OpensAt text p

/-- The brackets that stay open stand in the text. -/
def Progress.OpenedIn (text : List Char) : Progress → Prop
  | .more r => r.OpenedIn text
  | .done _ => True

namespace Reading

variable {r : Reading}

theorem openValue_located (hr : r.OpenedIn text) (path : Path) {position : Nat}
    (h : OpensAt text position) :
    Located limits text (OpenedIn text) (r.openValue limits path position) := by
  unfold openValue
  split
  · exact .of_placeless rfl
  · constructor
    case level =>
      rintro p ⟨⟩
      exact h
    case outer =>
      intro e he
      rcases List.mem_cons.mp he with rfl | he
      · exact hr.level
      · exact hr.outer e he

theorem closeValue_located (hr : r.OpenedIn text) :
    Located limits text (Progress.OpenedIn text) r.closeValue := by
  refine Level.finish_located.bind ?_
  intro f _
  split
  · trivial
  · rename_i path level outer houter
    have houter' := hr.outer
    rw [houter, List.forall_mem_cons] at houter'
    exact ⟨houter'.1, houter'.2⟩

/-- **A step that fails points into the text**, and one that does not keeps the brackets that
are open in it. -/
theorem step_located (hr : r.OpenedIn text) {phrase : Phrase} (hphrase : phrase.StandsIn text) :
    Located limits text (Progress.OpenedIn text) (r.step limits phrase) := by
  have hlevel {l : Level} (hl : l.bracket = r.level.bracket) :
      Progress.OpenedIn text (.more { r with level := l }) :=
    ⟨fun p hp => hr.level p (hl ▸ hp), hr.outer⟩
  cases phrase with
  | operand f => exact hlevel rfl
  | openGroup negated => exact (Level.openGroup_located negated).bind (fun _ h => hlevel h)
  | closeGroup position => exact (Level.closeGroup_located hphrase).bind (fun _ h => hlevel h)
  | join j => exact (Level.join_located j).bind (fun _ h => hlevel h)
  | openValue path position =>
      exact (openValue_located hr path hphrase).bind (fun _ h => h)
  | closeValue => exact closeValue_located hr

theorem finish_located (hr : r.OpenedIn text) :
    Located limits text (fun _ => True) r.finish := by
  unfold finish
  split
  · rename_i p hbracket
    exact (hr.level p hbracket).pointsInto
  · exact Level.finish_located

/-- **A run that fails points into the text.** -/
theorem run_located {c : Cursor} (hallows : limits.Allows text) (hr : r.OpenedIn text)
    (hc : c.PlaceOf text) :
    Located limits text (fun found => found.2.PlaceOf text) (r.run limits c) := by
  fun_induction run limits r c with
  | case1 r c e herror => exact (Phrase.read_located hallows hc).error herror
  | case2 r c hnone e herror => exact (finish_located hr).error herror
  | case3 r c hnone f hfinish => exact hc.atEnd
  | case4 r c phrase next hread _ e herror =>
      obtain ⟨hphrase, -⟩ := (Phrase.read_located hallows hc).ok hread _ rfl
      exact (step_located hr hphrase).error herror
  | case5 r c phrase next hread _ f hstep =>
      exact ((Phrase.read_located hallows hc).ok hread _ rfl).2
  | case6 r c phrase next hread _ r' hstep ih =>
      obtain ⟨hphrase, hnext⟩ := (Phrase.read_located hallows hc).ok hread _ rfl
      have hopened : Located limits text _ (r.step limits phrase) := step_located hr hphrase
      exact ih (hopened.ok hstep) hnext

end Reading

/-! ### Whole texts -/

theorem Filter.read_located {c : Cursor} (hallows : limits.Allows text) (hc : c.PlaceOf text) :
    Located limits text (fun found => found.2.PlaceOf text) (Filter.read limits c) := by
  refine Reading.run_located hallows ?_ hc
  exact ⟨fun p hp => absurd hp (by simp), fun e he => absurd he (by simp)⟩

theorem Filter.readWithin_located (hallows : limits.Allows text) :
    Path.Within.Located limits text (Filter.readWithin limits) := by
  intro opened c hopens hc
  unfold Filter.readWithin
  split
  · exact .of_placeless rfl
  · have hopened : Reading.OpenedIn text ⟨{ bracket := some opened, depth := 1 }, []⟩ := by
      constructor
      case level =>
        rintro p ⟨⟩
        exact hopens
      case outer => simp
    have hrun : Located limits text _ (Reading.run limits _ c) :=
      Reading.run_located hallows hopened hc
    split
    · rename_i e herror
      exact hrun.error herror
    · rename_i f next hread
      exact hrun.ok hread

/-- Reading a whole text, blanks around it included. -/
theorem located_of_openText {α : Type} {P : α → Prop} {limits : Limits} {cs : List Char}
    {read : Cursor → Except Error α}
    (hread : ∀ c : Cursor, limits.Allows (Text.trimEnd cs) → c.PlaceOf (Text.trimEnd cs) →
      Located limits (Text.trimEnd cs) P (read c)) :
    Located limits (Text.trimEnd cs) P (openText limits cs >>= read) := by
  cases hopen : openText limits cs with
  | error e =>
      obtain ⟨max, -, -, rfl⟩ := openText_eq_error hopen
      exact .of_placeless rfl
  | ok c =>
      obtain ⟨tail, htext, -⟩ := Text.exists_blank_tail cs
      have hlength : (Text.trimEnd cs).length ≤ cs.length := by
        conv_rhs => rw [htext, List.length_append]
        exact Nat.le_add_right _ _
      refine hread c ?_ (placeOf_of_openText hopen)
      intro max hmax
      exact Nat.le_trans hlength ((openText_eq_ok hopen).2 max hmax)

section

variable {text : String} {e : Error}

/-- The error of a whole text points into it. -/
theorem pointsInto_of_parse
    (h : parseFilter limits text = .error e ∨ parsePath limits text = .error e) :
    e.PointsInto limits (Text.trimEnd text.toList) := by
  rcases h with h | h
  · have hfilter : Located limits (Text.trimEnd text.toList) (fun _ => True)
        (parseFilterChars limits text.toList) :=
      located_of_openText fun c hallows hc =>
        (Filter.read_located hallows hc).bind (fun _ _ => trivial)
    exact hfilter.error h
  · have hpath : Located limits (Text.trimEnd text.toList) (fun _ => True)
        (parsePathChars limits text.toList) :=
      located_of_openText fun c hallows hc =>
        (Path.readFrom_located (Filter.readWithin_located hallows) hc).bind (fun _ _ => trivial)
    exact hpath.error h

/-- What it tells is true of the text with the blanks at its end. -/
theorem trueOf_of_parse
    (h : parseFilter limits text = .error e ∨ parsePath limits text = .error e) :
    e.TrueOf limits text.toList := by
  obtain ⟨tail, htext, hblank⟩ := Text.exists_blank_tail text.toList
  have htrue := (pointsInto_of_parse h).trueOf_append hblank
  rwa [← htext] at htrue

end

/-- **Where a filter or a path is refused.**  Every place that an error names is inside the text
without the blanks at its end, and what the error tells of these places is true of the text. -/
theorem parse_error_places (limits : Limits) (text : String) (e : Error)
    (h : parseFilter limits text = .error e ∨ parsePath limits text = .error e) :
    (∀ p ∈ e.places, p < (Text.trimEnd text.toList).length) ∧ e.TrueOf limits text.toList :=
  ⟨(pointsInto_of_parse h).inside, trueOf_of_parse h⟩

/-- An error inside a word, in front of a bracket and with blanks around the text: a name is
missing at the second dot, two characters into the word. -/
theorem parse_error_places_word :
    let text := "  x pr and a..b[c pr] \t"
    let e := Error.invalidAttributePath 11 (.attributeNameExpected 2)
    parseFilter { maxLength := some 23 } text = .error e ∧
      (∀ p ∈ e.places, p < 21) ∧ e.TrueOf { maxLength := some 23 } text.toList := by
  have h : parseFilter { maxLength := some 23 } "  x pr and a..b[c pr] \t" =
      .error (.invalidAttributePath 11 (.attributeNameExpected 2)) := by
    rw [← Text.refusal?_eq_some_iff]
    decide +kernel
  obtain ⟨hinside, htrue⟩ := parse_error_places _ _ _ (.inl h)
  exact ⟨h, hinside, htrue⟩

end ScimQuery
