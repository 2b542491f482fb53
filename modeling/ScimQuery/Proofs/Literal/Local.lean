import ScimQuery.Proofs.Json.Local
import ScimQuery.Proofs.Literal

/-!
# Literal — comparison values do not depend on what follows them

A comparison value is read from a part of the text that what follows may belong to.  Still what
follows does not count, as long as it starts with a character that ends a value in a filter, or
starts as it did when the value was read (`Follows`).

* `judge_parses`: the value and its spelling.
* `scan_append`: a value that was read is read alike in front of a closing character.
* `scan_local`: what scanning finds, with the number of characters up to the place behind it.

A string shows its own end.  Any other value ends in front of a character that no number has, be it
left behind the value (`Bounded`) or not even part of the text that is read.
-/

namespace ScimQuery

open Text (Cursor)

namespace Literal

variable {c : Char} {cs w s rest spelling : List Char} {value : Value}

/-- No character of a number may follow a value. -/
theorem isMark_of_isBoundary (h : isBoundary c = true) : Json.isMark c = false := by
  simp only [isBoundary, Json.isSpace, Bool.or_eq_true, beq_iff_eq] at h
  rcases h with ((((((((((rfl | rfl) | rfl) | rfl) | rfl) | rfl) | rfl) | rfl) | rfl) | rfl) | rfl)
  all_goals rfl

theorem Bounded.unmarked (h : Bounded s) : Json.Unmarked s :=
  fun d hd => isMark_of_isBoundary (h d hd)

/-- The text `s` may stand where `rest` stands behind a value: it starts alike, or with a character
that ends a value. -/
def Follows (s rest : List Char) : Prop :=
  s.head? = rest.head? ∨ ∀ d ∈ s.head?, isEnd d = true

/-- A value has a character. -/
theorem ne_nil_of_readValue {v : Json} (h : Json.readValue w = .ok (v, rest)) : w ≠ [] := by
  rintro rfl
  cases h

/-- Of what shows its own end, only a string is a comparison value. -/
theorem eq_quote_of_delimited (hc : isDelimited c = true)
    (h : Json.readValue (c :: cs) = .ok (value.toJson, rest)) : c = '"' := by
  have hvalue := Value.ofJson?_toJson value
  generalize value.toJson = v at h hvalue
  have hkind : c = '"' ∨ c = '[' ∨ c = '\x7b' := by
    simpa [isDelimited, or_assoc] using hc
  rcases hkind with rfl | rfl | rfl
  · rfl
  · obtain ⟨vs, rfl⟩ := Json.readValue_list h
    cases hvalue
  · obtain ⟨ms, rfl⟩ := Json.readValue_object h
    cases hvalue

/-- A value that may end in front of another text ends there: it is read alike. -/
theorem readValue_of_mayEnd (h : Json.readValue (spelling ++ rest) = .ok (value.toJson, rest))
    (hs : MayEnd spelling s) : Json.readValue (spelling ++ s) = .ok (value.toJson, s) := by
  obtain ⟨w, hw, hparses⟩ := Json.readValue_parses h
  obtain rfl : spelling = w := List.append_cancel_right hw
  refine hparses s ?_
  rcases hs with ⟨c, hc, hdelimited⟩ | hbounded
  · obtain ⟨more, rfl⟩ := List.head?_eq_some_iff.mp hc
    rw [eq_quote_of_delimited hdelimited h]
    exact .inl rfl
  · exact .inr hbounded.unmarked

/-- What may be left behind a value where another text stands for what was. -/
theorem bounded_takeWhile {more : List Char} (hrest : Bounded rest)
    (hmore : ∀ d ∈ more.head?, isEnd d = true) (hs : Follows s (rest ++ more)) :
    Bounded (s.takeWhile fun d => !isEnd d) := by
  intro d hd
  cases s with
  | nil => cases hd
  | cons e s =>
      by_cases he : isEnd e = true
      · simp [he] at hd
      · obtain rfl : e = d := by simpa [he] using hd
        rcases hs with hs | hs
        · cases rest with
          | nil => exact absurd (hmore e hs.symm) he
          | cons f rest =>
              cases hs
              exact hrest e rfl
        · exact absurd (hs e rfl) he

/-- What is judged to be a value is judged so where it may end in front of another text. -/
theorem judge_of_mayEnd (h : judge (spelling ++ rest) = .ok (value, spelling))
    (hs : MayEnd spelling s) : judge (spelling ++ s) = .ok (value, spelling) := by
  obtain ⟨rest', hrest, hread, -, hrange⟩ := judge_eq_ok_iff.mp h
  obtain rfl := List.append_cancel_left hrest
  exact judge_eq_ok_iff.mpr ⟨s, rfl, readValue_of_mayEnd hread hs, hs, hrange⟩

/-- **A comparison value does not depend on what follows it**, though its part of the text does: of
another text, as much belongs to this part as has no closing character. -/
theorem judge_parses (h : judge (extent (c :: cs)) = .ok (value, spelling)) :
    ∃ rest, c :: cs = spelling ++ rest ∧ Json.readValue spelling = .ok (value.toJson, []) ∧
      ∀ s, Follows s rest → judge (extent (spelling ++ s)) = .ok (value, spelling) := by
  obtain ⟨left, hextent, hread, hend, -⟩ := judge_eq_ok_iff.mp h
  rw [hextent] at hread h
  have hspelling := readValue_of_mayEnd hread (.inr (by simp [Bounded]) : MayEnd spelling [])
  rw [List.append_nil] at hspelling
  obtain ⟨d, w, rfl⟩ := List.exists_cons_of_ne_nil (ne_nil_of_readValue hspelling)
  cases hc : isDelimited c with
  | true =>
      rw [extent_delimited hc] at hextent
      obtain rfl : c = d := (List.cons.inj hextent).1
      refine ⟨left, hextent, hspelling, fun s _ => ?_⟩
      rw [List.cons_append, extent_delimited hc]
      exact judge_of_mayEnd h (.inl ⟨c, rfl, hc⟩)
  | false =>
      obtain ⟨body, more, hcs, hin, hmore⟩ := Text.exists_run (fun d => !isEnd d) (c :: cs)
      rw [extent_bare hc, hcs, Text.takeWhile_run hin hmore] at hextent
      subst hextent
      obtain rfl : c = d := (List.cons.inj hcs).1
      have hleft : Bounded left := hend.resolve_left (by simp [hc])
      refine ⟨left ++ more, by rw [hcs, List.append_assoc], hspelling, fun s hs => ?_⟩
      have hw : ∀ d ∈ c :: w, (!isEnd d) = true := fun d hd => hin d (List.mem_append_left left hd)
      rw [List.cons_append, extent_bare hc, ← List.cons_append, List.takeWhile_append_of_pos hw]
      exact judge_of_mayEnd h (.inr (bounded_takeWhile hleft (by simpa using hmore) hs))

/-! ### What scanning finds -/

/-- What scanning finds is spaces, the spelling of the value, and what is left. -/
theorem exists_spelling {r : List Char} {l : Literal} (h : scan r = .ok (some l)) :
    ∃ w c cs q, r = w ++ c :: cs ++ q ∧ (∀ d ∈ w, Json.isSpace d = true) ∧
      Json.isSpace c = false ∧ Json.readValue (c :: cs) = .ok (l.value.toJson, []) ∧
      l.length = (if q.head? = some ' ' then w.length + (c :: cs).length + 1
        else w.length + (c :: cs).length) ∧
      ∀ q', Follows q' q → judge (extent (c :: cs ++ q')) = .ok (l.value, c :: cs) := by
  obtain ⟨w, c, body, rfl, hw, hc⟩ := exists_of_scan (s := r) (by simp [h])
  obtain ⟨value, spelling, hjudge, rfl⟩ := (scan_eq_ok_iff hw hc).mp h
  obtain ⟨q, hbody, hspelling, hparses⟩ := judge_parses hjudge
  obtain ⟨d, cs, rfl⟩ := List.exists_cons_of_ne_nil (ne_nil_of_readValue hspelling)
  obtain rfl : c = d := (List.cons.inj hbody).1
  refine ⟨w, c, cs, q, by rw [hbody, List.append_assoc], hw, hc, hspelling, ?_, hparses⟩
  rw [found_run hw hc, hbody, List.drop_left]

theorem length_le_of_scan {r : List Char} {l : Literal} (h : scan r = .ok (some l)) :
    l.length ≤ r.length := by
  obtain ⟨w, c, cs, q, rfl, -, -, -, hlength, -⟩ := exists_spelling h
  rw [hlength]
  cases q with
  | nil => simp
  | cons d q =>
      simp only [List.length_append, List.length_cons]
      split <;> omega

/-- **A value that was read is read alike in front of a closing character.** -/
theorem scan_append {r tail : List Char} {l : Literal} (h : scan r = .ok (some l))
    (htail : ∀ d ∈ tail.head?, isEnd d = true) (hspace : ' ' ∉ tail.head?) :
    scan (r ++ tail) = .ok (some l) := by
  obtain ⟨w, c, cs, q, rfl, hw, hc, -, -, hjudge⟩ := exists_spelling h
  have hself := scan_of_judge hw hc (hjudge q (.inl rfl))
  have hfollows : Follows (q ++ tail) q ∧
      ((q ++ tail).head? = some ' ' ↔ q.head? = some ' ') := by
    cases q with
    | nil => exact ⟨.inr htail, by simpa using hspace⟩
    | cons d q => exact ⟨.inl rfl, Iff.rfl⟩
  rw [List.append_assoc, scan_of_judge hw hc (hjudge _ hfollows.1), ← h, hself]
  simp only [hfollows.2]

/-- **The place behind a comparison value.**  What scanning finds is spaces, the text of the value
and what is left; it counts the characters of the first two and a space after them, so that there
is as much to skip.  In front of any other text that starts with a character that ends a value, it
finds the same value in the same place. -/
theorem scan_local {r : List Char} {l : Literal} (h : scan r = .ok (some l)) :
    ∃ w text q, r = w ++ text ++ q ∧ (∀ c ∈ w, c ∈ [' ', '\t', '\n', '\r']) ∧
      Json.readValue text = .ok (l.value.toJson, []) ∧
      l.length = (if q.head? = some ' ' then w.length + text.length + 1
        else w.length + text.length) ∧
      l.length ≤ r.length ∧
      (∀ p, ((⟨p, r⟩ : Cursor).skip l.length).position = p + l.length) ∧
      ∀ q', (∀ d ∈ q'.head?, d ∈ [' ', ')', ']']) →
        scan (w ++ text ++ q') = .ok (some ⟨l.value,
          if q'.head? = some ' ' then w.length + text.length + 1
          else w.length + text.length⟩) := by
  obtain ⟨w, c, cs, q, rfl, hw, hc, hspelling, hlength, hjudge⟩ := exists_spelling h
  have hle := length_le_of_scan h
  refine ⟨w, c :: cs, q, rfl, ?_, hspelling, hlength, hle, ?_, ?_⟩
  · intro d hd
    exact isSpace_iff_mem.mp (hw d hd)
  · intro p
    rw [Cursor.skip, Nat.min_eq_left hle]
  · intro q' hq'
    exact scan_of_judge hw hc (hjudge q' (.inr fun d hd => isEnd_iff_mem.mpr (hq' d hd)))

/-- A number behind a tab and a space: in front of a bracket it is found like in front of a word. -/
theorem scan_local_number :
    scan "\t -25 and".toList = .ok (some ⟨.number (.whole ⟨-25, by decide⟩), 6⟩) ∧
      ∃ w text q, "\t -25 and".toList = w ++ text ++ q ∧
        scan (w ++ text ++ "] and".toList) =
          .ok (some ⟨.number (.whole ⟨-25, by decide⟩), w.length + text.length⟩) := by
  have hw : ∀ d ∈ ['\t', ' '], Json.isSpace d = true := by simp [Json.isSpace]
  have htail : ∀ d ∈ " and".toList.head?, isEnd d = true := by simp [isEnd]
  have htext : (Value.number (.whole ⟨-25, by decide⟩)).chars = ['-', '2', '5'] := by
    rw [whole_chars]
    rfl
  obtain ⟨c, cs, hchars, hc, hjudge⟩ := judge_chars
    (v := .number (.whole ⟨-25, by decide⟩)) (by rintro d ⟨⟩) htail
  obtain ⟨rfl, rfl⟩ := List.cons.inj (htext.symm.trans hchars)
  rw [htext] at hjudge
  have hscan := scan_of_judge hw hc hjudge
  obtain ⟨w, text, q, hparts, -, -, -, -, -, hlocal⟩ := scan_local hscan
  exact ⟨hscan, w, text, q, hparts, hlocal "] and".toList (by simp)⟩

end Literal

end ScimQuery
