import ScimQuery.Filter.Phrase
import ScimQuery.Proofs.Filter.Tokens
import ScimQuery.Proofs.Text.EditDistance

/-!
# Filter — closing characters and keywords

What may follow the text of a filter ends every token and every comparison value in front of it
(`Closes`); a character that closes what is around the text is no word itself (`Shuts`).  The
keywords are words, and each is told from the others.  For a word that is no operator, the first
keyword is suggested that one edit makes of it (`Operator.suggest?_eq_some_iff`).
-/

namespace ScimQuery

open Text (isWordChar isKeyword)

/-! ### Closing characters -/

/-- What may follow the text of a filter. -/
def Closes (region : Region) (tail : List Char) : Prop :=
  ∀ d ∈ tail.head?, d = ' ' ∨ d = ')' ∨ (d = ']' ∧ region = .valueFilter)

theorem Closes.ends {region : Region} {tail : List Char} (h : Closes region tail) :
    Token.Ends region tail := by
  intro d hd
  rcases h d hd with rfl | rfl | ⟨rfl, rfl⟩
  · exact .inl rfl
  · exact .inr rfl
  · exact .inr rfl

theorem Closes.isEnd {region : Region} {tail : List Char} (h : Closes region tail) :
    ∀ d ∈ tail.head?, Literal.isEnd d = true := by
  intro d hd
  rcases h d hd with rfl | rfl | ⟨rfl, -⟩ <;> rfl

/-- The text goes on with a character that closes what is around it. -/
def Shuts (region : Region) (tail : List Char) : Prop :=
  ∃ d more, tail = d :: more ∧ (d = ')' ∨ (d = ']' ∧ region = .valueFilter))

theorem shuts_paren (region : Region) (rest : List Char) : Shuts region (')' :: rest) :=
  ⟨')', rest, rfl, .inl rfl⟩

theorem shuts_bracket (rest : List Char) : Shuts .valueFilter (']' :: rest) :=
  ⟨']', rest, rfl, .inr ⟨rfl, rfl⟩⟩

theorem Shuts.closes (h : Shuts region tail) : Closes region tail := by
  obtain ⟨d, more, rfl, hd⟩ := h
  intro d' hd'
  cases hd'
  exact .inr hd

theorem Shuts.no_space (h : Shuts region tail) : ' ' ∉ tail.head? := by
  obtain ⟨d, more, rfl, rfl | ⟨rfl, -⟩⟩ := h <;> simp

theorem Shuts.read (h : Shuts region tail) (k : Nat) :
    ∃ t next, Token.read region ⟨k, tail⟩ = .ok (some ⟨t, k, next⟩) ∧ ∀ w, t ≠ .word w := by
  obtain ⟨d, more, rfl, rfl | ⟨rfl, rfl⟩⟩ := h
  · exact ⟨.closeParen, _, Token.read_of_lexes (.delimiter rfl), by simp⟩
  · exact ⟨.closeBracket, _, Token.read_of_lexes (.delimiter rfl), by simp⟩

/-! ### Keywords -/

theorem Operator.keyword_word (op : Operator) :
    op.keyword.toList ≠ [] ∧ ∀ c ∈ op.keyword.toList, isWordChar c = true := by
  cases op <;> exact ⟨by decide, List.all_eq_true.mp (by decide +kernel)⟩

theorem Operator.ofKeyword?_keyword (op : Operator) :
    isKeyword op.keyword.toList Operator.presentKeyword = false ∧
      Operator.ofKeyword? op.keyword.toList = some op := by
  cases op <;> decide

theorem Junction.keyword_word (j : Junction) :
    j.keyword.toList ≠ [] ∧ ∀ c ∈ j.keyword.toList, isWordChar c = true := by
  cases j <;> exact ⟨by decide, List.all_eq_true.mp (by decide +kernel)⟩

theorem presentKeyword_word :
    Operator.presentKeyword.toList ≠ [] ∧
      ∀ c ∈ Operator.presentKeyword.toList, isWordChar c = true :=
  ⟨by decide, List.all_eq_true.mp (by decide +kernel)⟩

theorem not_word : "not".toList ≠ [] ∧ ∀ c ∈ "not".toList, isWordChar c = true :=
  ⟨by decide, List.all_eq_true.mp (by decide +kernel)⟩

/-! ### The case of letters -/

namespace Text

variable {w w' : List Char}

/-- A letter is a character of words, in either case. -/
theorem isWordChar_letter {c : Char} (h : 65 ≤ c.toNat ∧ c.toNat ≤ 90) :
    isWordChar c = true ∧ isWordChar c.toLower = true := by
  have few : ∀ k < 26, isWordChar (Char.ofNat (65 + k)) = true ∧
      isWordChar (Char.ofNat (65 + k)).toLower = true := by decide +kernel
  have hk : 65 + (c.toNat - 65) = c.toNat := by omega
  have := few (c.toNat - 65) (by omega)
  rwa [hk, Char.ofNat_toNat] at this

theorem toLower_cases (c : Char) : (65 ≤ c.toNat ∧ c.toNat ≤ 90) ∨ c.toLower = c := by
  unfold Char.toLower
  split
  · rename_i h
    exact .inl ⟨UInt32.le_iff_toNat_le.mp h.1, UInt32.le_iff_toNat_le.mp h.2⟩
  · exact .inr rfl

/-- Characters that are equal but for their case are equal, or letters. -/
theorem eq_or_isWordChar {c d : Char} (h : c.toLower = d.toLower) :
    c = d ∨ isWordChar d = true := by
  rcases toLower_cases d with hd | hd
  · exact .inr (isWordChar_letter hd).1
  rcases toLower_cases c with hc | hc
  · right
    rw [← hd, ← h]
    exact (isWordChar_letter hc).2
  · exact .inl (hc.symm.trans (h.trans hd))

/-- A word in other letters is a word. -/
theorem isWordChar_of_sameLetters (h : sameLetters w w' = true)
    (hw : ∀ c ∈ w, isWordChar c = true) : ∀ c ∈ w', isWordChar c = true := by
  have hlower : lower w = lower w' := eq_of_beq h
  clear h
  induction w generalizing w' with
  | nil =>
      cases w' with
      | nil => exact hw
      | cons d w' => cases hlower
  | cons c w ih =>
      cases w' with
      | nil => cases hlower
      | cons d w' =>
          obtain ⟨hletter, hrest⟩ := List.cons.inj hlower
          rw [List.forall_mem_cons] at hw ⊢
          refine ⟨?_, ih hw.2 hrest⟩
          rcases eq_or_isWordChar hletter with rfl | hd
          · exact hw.1
          · exact hd

theorem isKeyword_congr (h : sameLetters w w' = true) (keyword : String) :
    isKeyword w keyword = isKeyword w' keyword := by
  have hlower : lower w = lower w' := eq_of_beq h
  rw [isKeyword, sameLetters, hlower]
  rfl

theorem ne_nil_of_sameLetters (h : sameLetters w w' = true) (hne : w ≠ []) : w' ≠ [] := by
  have hlower : lower w = lower w' := eq_of_beq h
  rintro rfl
  exact hne (List.map_eq_nil_iff.mp hlower)

end Text

theorem Operator.ofKeyword?_congr {w w' : List Char} (h : Text.sameLetters w w' = true) :
    ofKeyword? w = ofKeyword? w' := by
  unfold ofKeyword?
  congr 1
  funext op
  exact Text.isKeyword_congr h op.keyword

theorem Token.Spelled.sameLetters {w w' : List Char} (hw : (Token.word w).Spelled)
    (h : Text.sameLetters w w' = true) : (Token.word w').Spelled :=
  ⟨Text.ne_nil_of_sameLetters h hw.1, Text.isWordChar_of_sameLetters h hw.2⟩

/-! ### The suggested operator -/

namespace Operator

open Text (Edit Edits editDistance editDistance_eq_one_iff isLeast_editDistance lower)

/-- **The suggestion** is the first keyword that the word in lower case is one edit away from: one
character is inserted, deleted or substituted by a different one.  The distance by which it is
found is the least number of edits between two texts. -/
theorem suggest?_eq_some_iff :
    (∀ xs ys : List Char, IsLeast {n | Edits n xs ys} (editDistance xs ys)) ∧
      ∀ (word : List Char) (suggestion : String), suggest? word = some suggestion ↔
        ∃ before after : List String,
          ["eq", "ne", "co", "sw", "ew", "gt", "ge", "lt", "le", "pr"] =
              before ++ suggestion :: after ∧
            Edit (lower word) suggestion.toList ∧
              ∀ keyword ∈ before, ¬ Edit (lower word) keyword.toList := by
  refine ⟨isLeast_editDistance, ?_⟩
  intro word suggestion
  have hkeywords : keywords = ["eq", "ne", "co", "sw", "ew", "gt", "ge", "lt", "le", "pr"] := rfl
  have htest (keyword : String) :
      (editDistance (lower word) keyword.toList == 1) = true ↔
        Edit (lower word) keyword.toList := by
    rw [beq_iff_eq, editDistance_eq_one_iff]
  rw [suggest?, List.find?_eq_some_iff_append, hkeywords]
  simp only [htest, Bool.not_eq_eq_eq_not, Bool.not_true, ← Bool.not_eq_true]
  constructor
  · rintro ⟨hedit, before, after, hsplit, hbefore⟩
    exact ⟨before, after, hsplit, hedit, hbefore⟩
  · rintro ⟨before, after, hsplit, hedit, hbefore⟩
    exact ⟨hedit, before, after, hsplit, hbefore⟩

/-- `lte` is one edit away from `lt` and from `le`, and so is `LTE`; the first of them is
suggested. -/
example : suggest? "LTE".toList = some "lt" := by decide

end Operator

end ScimQuery
