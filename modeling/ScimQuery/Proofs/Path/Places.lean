import ScimQuery.Proofs.Error.Places
import ScimQuery.Proofs.Path.Readable

/-!
# Path — where a path is refused

Reading a path comes to a place of the text, or ends in an error that points into the text, if
the reader of its value filters does so (`Path.readFrom_located`).

* `Piece.read_located`: a piece stands where it says, and a piece that opens a value filter has the
  bracket behind its name.
* `readFrom_congr`: on a text without bracket it does not matter how value filters are read.
* `parsePath_word`: the path of a condition is the one that its word spells by itself.
* `ofWord_error`: an error inside a word, told of the text around it.
-/

namespace ScimQuery

open Error (OpensAt)
open Text (Cursor isNameChar isWordChar)

variable {limits : Limits} {text : List Char}

namespace Path

/-! ### Pieces -/

/-- The piece stands in the text where it says, with a bracket behind its name if it opens a
value filter. -/
structure Piece.StandsIn (text : List Char) (piece : Piece) : Prop where
  inside : piece.position < text.length
  named : piece.name <+: text.drop piece.position
  opens : piece.opens = true → piece.name ≠ [] → OpensAt text piece.position
  next : piece.next.PlaceOf text

theorem Piece.read_located {c : Cursor} (hc : c.PlaceOf text) :
    Located limits text (fun found => ∀ piece ∈ found, piece.StandsIn text) (Piece.read c) := by
  obtain ⟨p, cs⟩ := c
  obtain ⟨w, s, rfl, hw, hs⟩ := Text.exists_run isNameChar cs
  have hnamed : w <+: text.drop p := hc.isPrefix
  have hafter := hc.append
  cases s with
  | nil =>
      rw [List.append_nil] at hc ⊢
      rw [Piece.read_end hw]
      split
      · simp [Located]
      · rename_i hne
        rintro piece ⟨⟩
        exact ⟨hc.lt_length (by simpa using hne), hnamed, by simp, hafter⟩
  | cons d s =>
      have hinside : p < text.length := hc.lt_length (by simp)
      have hwords : ∀ c ∈ w, isWordChar c = true :=
        fun c hcw => Text.isWordChar_of_isNameChar (hw c hcw)
      rw [Piece.read_cons hw (hs d rfl)]
      split
      · rename_i hopen
        subst hopen
        rintro piece ⟨⟩
        refine ⟨hinside, hnamed, ?_, hafter.tail⟩
        intro _ hne
        have hbracket : Cursor.PlaceOf text ⟨p, (w ++ ['[']) ++ s⟩ := by
          rwa [List.append_assoc]
        exact ⟨w, hne, hwords, hbracket.isPrefix⟩
      · split
        · split
          · exact .of_placeless rfl
          · rintro piece ⟨⟩
            exact ⟨hinside, hnamed, by simp, hafter.tail⟩
        · exact Error.pointsInto_unexpectedCharacter hc hwords

/-- A piece of a text without bracket. -/
theorem Piece.read_of_no_bracket {c : Cursor} {piece : Piece} (hbracket : '[' ∉ c.rest)
    (h : Piece.read c = .ok (some piece)) : piece.opens = false ∧ '[' ∉ piece.next.rest := by
  obtain ⟨p, cs⟩ := c
  obtain ⟨w, s, rfl, hw, hs⟩ := Text.exists_run isNameChar cs
  cases s with
  | nil =>
      rw [List.append_nil, Piece.read_end hw] at h
      split at h
      · cases h
      · cases h
        exact ⟨rfl, by simp⟩
  | cons d s =>
      have hopen : '[' ≠ d ∧ '[' ∉ s := by
        simp only [List.mem_append, List.mem_cons, not_or] at hbracket
        exact hbracket.2
      rw [Piece.read_cons hw (hs d rfl), if_neg hopen.1.symm] at h
      split at h
      · split at h
        · cases h
        · cases h
          exact ⟨rfl, hopen.2⟩
      · cases h

/-! ### Paths -/

/-- The reader of value filters comes to a place of the text or points into it. -/
def Within.Located (limits : Limits) (text : List Char) (within : Within) : Prop :=
  ∀ opened (c : Cursor), OpensAt text opened → c.PlaceOf text →
    ScimQuery.Located limits text (fun found => found.2.val.PlaceOf text) (within opened c)

/-- The name that a piece adds is part of it. -/
theorem ne_nil_of_attached {acc : Option Path} {piece name : List Char} {urn : Option String}
    (h : (match acc with
      | none => splitSchema piece
      | some _ => (none, piece)) = (urn, name)) (hname : name ≠ []) : piece ≠ [] := by
  rintro rfl
  cases acc with
  | none => exact hname (congrArg Prod.snd h).symm
  | some p => exact hname (congrArg Prod.snd h).symm

/-- **An error of a path points into the text**, if those of its value filters do. -/
theorem readFrom_located {within : Within} (hwithin : within.Located limits text)
    {acc : Option Path} {due : Bool} {c : Cursor} (hc : c.PlaceOf text) :
    Located limits text (fun found => found.2.PlaceOf text) (readFrom within acc due c) := by
  have hread {c : Cursor} (hc : c.PlaceOf text) : Located limits text _ (Piece.read c) :=
    Piece.read_located hc
  fun_induction readFrom within acc due c with
  | case1 acc due c e herror => exact (hread hc).error herror
  | case2 acc due c hnone => exact hc
  | case3 acc c piece hpiece _ hdot ih => exact ih ((hread hc).ok hpiece piece rfl).next
  | case4 acc due c piece hpiece _ hdot hdue =>
      exact .of_place rfl ((hread hc).ok hpiece piece rfl).inside trivial
  | case5 acc c piece hpiece _ hname =>
      have hstands := (hread hc).ok hpiece piece rfl
      exact .of_place rfl hstands.inside (by simpa [Error.TrueOf] using hstands.named)
  | case6 acc due c piece hpiece => exact ((hread hc).ok hpiece piece rfl).next
  | case7 acc due c piece hpiece =>
      exact .of_place rfl ((hread hc).ok hpiece piece rfl).inside trivial
  | case8 acc due c piece hpiece _ _ _ urn name hattach hname hopens e herror =>
      have hstands := (hread hc).ok hpiece piece rfl
      have hne := ne_nil_of_attached hattach (by simpa using hname)
      exact (hwithin _ _ (hstands.opens hopens hne) hstands.next).error herror
  | case9 acc due c piece hpiece _ _ _ urn name hattach _ hname hopens f next hnext hfilter ih =>
      have hstands := (hread hc).ok hpiece piece rfl
      have hne := ne_nil_of_attached hattach (by simpa using hname)
      exact ih ((hwithin _ _ (hstands.opens hopens hne) hstands.next).ok hfilter)
  | case10 acc due c piece hpiece _ _ _ urn name hattach _ hname hopens ih =>
      exact ih ((hread hc).ok hpiece piece rfl).next

/-! ### Words -/

/-- Where no bracket comes, no value filter is read. -/
theorem readFrom_congr (within within' : Within) : ∀ (acc : Option Path) (c : Cursor),
    '[' ∉ c.rest → readFrom within acc false c = readFrom within' acc false c
  | acc, c, hbracket => by
      cases hpiece : Piece.read c with
      | error e => rw [readFrom_of_error hpiece, readFrom_of_error hpiece]
      | ok found =>
          cases found with
          | none => rw [readFrom_of_none hpiece, readFrom_of_none hpiece]
          | some piece =>
              have := Piece.read_length hpiece
              obtain ⟨hopens, hafter⟩ := Piece.read_of_no_bracket hbracket hpiece
              rw [readFrom_some hpiece, readFrom_some hpiece]
              simp only [hopens, Bool.false_eq_true, if_false]
              rw [readFrom_congr within within' _ piece.next hafter]
termination_by _ c => c.rest.length

/-- A word is the same path by itself as in a condition. -/
theorem parsePath_word {word : List Char} (hword : ∀ c ∈ word, isWordChar c = true)
    (hallows : limits.Allows word) : parsePath limits (String.ofList word) = ofWord word := by
  have htrim : Text.Trimmed word := by
    constructor
    · intro c hc
      exact Text.isBlank_eq_false (hword c (List.mem_of_mem_head? hc))
    · intro c hc
      exact Text.isBlank_eq_false (hword c (List.mem_of_getLast? hc))
  have hbracket : '[' ∉ word := by
    intro hmem
    have := hword '[' hmem
    rw [Text.isWordChar_eq_false (by simp)] at this
    cases this
  have hread := readFrom_congr (Filter.readWithin limits)
    (fun opened _ => .error (.unclosedBracket opened)) none ⟨0, word⟩ hbracket
  rw [parsePath, String.toList_ofList, parsePathChars, openText_of_allows htrim hallows, ofWord,
    Cursor.start, ← hread]
  rfl

/-- An error inside a word points into the word. -/
theorem ofWord_pointsInto (limits : Limits) {word : List Char} {e : Error}
    (h : ofWord word = .error e) : e.PointsInto limits word := by
  have hwithin : Within.Located limits word (fun opened _ => .error (.unclosedBracket opened)) :=
    fun opened c hopens _ => hopens.pointsInto
  have hlocated : Located limits word (fun _ => True) (ofWord word) :=
    (readFrom_located hwithin (Cursor.placeOf_start word)).bind (fun _ _ => trivial)
  exact hlocated.error h

/-- A word stands at the place as a whole: no further character of a word comes after it. -/
structure WordAt (text : List Char) (p : Nat) (word : List Char) : Prop where
  ne_nil : word ≠ []
  isWord : ∀ c ∈ word, isWordChar c = true
  stands : ∃ s, Cursor.PlaceOf text ⟨p, word ++ s⟩ ∧ ∀ d ∈ s.head?, isWordChar d = false

theorem WordAt.inside {word : List Char} {p : Nat} (h : WordAt text p word) :
    p + word.length ≤ text.length ∧ p < text.length := by
  obtain ⟨s, hplace, -⟩ := h.stands
  have hinside : p < text.length := hplace.lt_length (by simp [h.ne_nil])
  have hlength := hplace.isPrefix.length_le
  rw [List.length_drop] at hlength
  omega

/-- **An error inside a word** is told of the text around it by the place of the word. -/
theorem ofWord_error {word : List Char} {p : Nat} {e : Error} (hword : WordAt text p word)
    (hallows : limits.Allows text) (h : ofWord word = .error e) :
    (Error.invalidAttributePath p e).PointsInto limits text := by
  obtain ⟨s, hplace, hstop⟩ := hword.stands
  have hrun : (text.drop p).takeWhile isWordChar = word := hplace.takeWhile hword.isWord hstop
  obtain ⟨hlength, hinside⟩ := hword.inside
  constructor
  case inside =>
    intro q hq
    rcases List.mem_cons.mp hq with rfl | hq
    · exact hinside
    · obtain ⟨r, hr, rfl⟩ := List.mem_map.mp hq
      have := (ofWord_pointsInto limits h).inside r hr
      omega
  case trueOf =>
    show Error.RefusedAlone limits ((text.drop p).takeWhile isWordChar) e
    rw [hrun]
    intro l hl
    have hlallows : l.Allows word := by
      rcases hl with rfl | hl
      · intro max hmax
        have := hallows max hmax
        omega
      · exact hl
    rw [parsePath_word hword.isWord hlallows, h]

end Path

end ScimQuery
