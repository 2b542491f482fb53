import ScimQuery.Proofs.Filter.Phrases
import ScimQuery.Proofs.Filter.Tokens
import ScimQuery.Proofs.Literal.Local
import ScimQuery.Proofs.Text.Local

/-!
# Filter — phrases do not depend on what follows them

What has been read of a filter is read alike when another text follows, which starts alike or with
a character that ends every word and every value.

* `Token.read_local`, `Phrase.readValue_local`: tokens and values.
* `Phrase.Reads.local`: phrases, which are one or two tokens and a value at most.
-/

namespace ScimQuery

open Text (Cursor Local Lands Replaces isWordChar)

/-! ### Tokens -/

namespace Token

theorem ends_of_replaces {region : Region} {s rest : List Char} (h : Replaces s rest)
    (hrest : Ends region rest) : Ends region s := by
  intro d hd
  rcases h with h | h
  · exact hrest d (h ▸ hd)
  · rcases h d hd with rfl | rfl
    · exact .inl rfl
    · exact .inr rfl

theorem Lexes.local {region : Region} {c : Cursor} {l : Lexeme} (h : Lexes region c l) :
    Local (fun x y => Lexes region x ⟨l.token, l.position, y⟩) c l.next := by
  induction h with
  | @space p cs l _ ih =>
      obtain ⟨w, hne, hrest, hposition, hw⟩ := ih
      refine ⟨' ' :: w, by simp, congrArg (' ' :: ·) hrest, ?_, ?_⟩
      · rw [hposition, List.length_cons, Nat.add_assoc, Nat.add_comm 1]
      · intro s hs
        obtain ⟨next, hnext, hlex⟩ := hw s hs
        exact ⟨next, hnext, .space hlex⟩
  | word hne hw hs => exact .of_pastSpace hne fun s hs' => .word hne hw (ends_of_replaces hs' hs)
  | @valuePath p w s hw =>
      have hlocal : Local (fun x y => Lexes region x ⟨.valuePath w, p, y⟩) ⟨p, (w ++ ['[']) ++ s⟩
          ⟨p + (w ++ ['[']).length, s⟩ := by
        refine .of_append (by simp) fun s' _ => ?_
        have hlex : Lexes region ⟨p, w ++ '[' :: s'⟩ _ := .valuePath hw
        rwa [List.append_cons, Nat.add_assoc, ← List.length_singleton, ← List.length_append] at hlex
      rwa [List.append_assoc, List.length_append, ← Nat.add_assoc] at hlocal
  | @delimiter p d s t ht =>
      exact .of_append (w := [d]) (by simp) fun s' _ => .delimiter ht

/-- **A token does not depend on what follows it.** -/
theorem read_local {region : Region} {c next : Cursor} {t : Token} {k : Nat}
    (h : read region c = .ok (some ⟨t, k, next⟩)) :
    Local (fun x y => read region x = .ok (some ⟨t, k, y⟩)) c next :=
  (lexes_of_read h).local.mono fun _ _ => read_of_lexes

end Token

/-! ### Phrases -/

namespace Phrase

variable {region : Region} {word : List Char} {position : Nat} {due : Bool} {c after : Cursor}
  {f : Filter} {phrase : Phrase}

/-- A value behind JSON spaces, and the space after it. -/
theorem readValue_spelled {p : Nat} {w cs s : List Char} {d : Char} {v : Value}
    (hw : ∀ e ∈ w, Json.isSpace e = true) (hd : Json.isSpace d = false)
    (h : Literal.judge (Literal.extent (d :: cs ++ s)) = .ok (v, d :: cs)) :
    readValue ⟨p, (w ++ d :: cs) ++ s⟩ =
      .ok (v, Cursor.pastSpace ⟨p + (w ++ d :: cs).length, s⟩) := by
  rw [← Cursor.skip_pastSpace, List.length_append]
  simp only [readValue, Literal.scan_of_judge hw hd h]

theorem follows_of_replaces {s rest : List Char} (h : Replaces s rest) :
    Literal.Follows s rest := by
  refine h.imp_right fun h d hd => ?_
  rcases h d hd with rfl | rfl <;> rfl

/-- What is read as a comparison value: JSON spaces, the text of the value, and a space behind
it. -/
theorem exists_of_readValue (h : readValue c = .ok (v, after)) :
    ∃ w d cs q, c.rest = (w ++ d :: cs) ++ q ∧ (∀ e ∈ w, Json.isSpace e = true) ∧
      Json.isSpace d = false ∧ Json.readValue (d :: cs) = .ok (v.toJson, []) ∧
      (∀ q', Literal.Follows q' q →
        Literal.judge (Literal.extent (d :: cs ++ q')) = .ok (v, d :: cs)) ∧
      after = Cursor.pastSpace ⟨c.position + (w ++ d :: cs).length, q⟩ := by
  obtain ⟨p, cs⟩ := c
  have hread := h
  unfold readValue at h
  split at h
  · cases h
  · cases h
  · rename_i literal hscan
    obtain ⟨w, d, cs, q, rfl, hw, hd, hvalue, -, hjudge⟩ := Literal.exists_spelling hscan
    cases h
    have hspelled := readValue_spelled (p := p) hw hd (hjudge q (.inl rfl))
    obtain ⟨-, hafter⟩ := Prod.mk.inj (Except.ok.inj (hread.symm.trans hspelled))
    exact ⟨w, d, cs, q, rfl, hw, hd, hvalue, hjudge, hafter⟩

/-- **A comparison value in a filter does not depend on what follows it.** -/
theorem readValue_local {v : Value} (h : readValue c = .ok (v, after)) :
    Local (fun x y => readValue x = .ok (v, y)) c after := by
  obtain ⟨p, _⟩ := c
  obtain ⟨w, d, cs, q, rfl, hw, hd, -, hjudge, rfl⟩ := exists_of_readValue h
  exact .of_pastSpace (by simp) fun s hs =>
    readValue_spelled hw hd (hjudge s (follows_of_replaces hs))

/-- What a condition is read from, but for the word of its attribute, does not depend on what
follows it. -/
theorem ReadsCondition.local (h : ReadsCondition region word position c f after) :
    Local (fun x y => ReadsCondition region word position x f y) c after := by
  cases h with
  | present hpath htoken hpresent =>
      exact (Token.read_local htoken).mono fun _ _ htoken => .present hpath htoken hpresent
  | compare hpath htoken hpresent hop hvalue =>
      refine ((Token.read_local htoken).trans (readValue_local hvalue)).mono ?_
      rintro x z ⟨y, htoken, hvalue⟩
      exact .compare hpath htoken hpresent hop hvalue

/-- **A phrase does not depend on what follows it.** -/
theorem Reads.local (h : Reads region due c phrase after) :
    Local (fun x y => Reads region due x phrase y) c after := by
  cases h with
  | openGroup htoken => exact (Token.read_local htoken).mono fun _ _ htoken => .openGroup htoken
  | openNegated htoken hnot hparen =>
      refine ((Token.read_local htoken).trans (Token.read_local hparen)).mono ?_
      rintro x z ⟨y, htoken, hparen⟩
      exact .openNegated htoken hnot hparen
  | operand htoken hnot hcondition =>
      have hreads := readCondition_eq_ok_iff.mp hcondition
      refine ((Token.read_local htoken).trans hreads.local).mono ?_
      rintro x z ⟨y, htoken, hreads⟩
      exact .operand htoken hnot (readCondition_eq_ok_iff.mpr hreads)
  | openValue htoken hne hpath =>
      exact (Token.read_local htoken).mono fun _ _ htoken => .openValue htoken hne hpath
  | join htoken hw => exact (Token.read_local htoken).mono fun _ _ htoken => .join htoken hw
  | closeGroup htoken => exact (Token.read_local htoken).mono fun _ _ htoken => .closeGroup htoken
  | closeValue htoken => exact (Token.read_local htoken).mono fun _ _ htoken => .closeValue htoken

end Phrase

end ScimQuery
