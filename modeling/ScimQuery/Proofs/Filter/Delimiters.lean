import ScimQuery.Proofs.Filter.Phrases
import ScimQuery.Proofs.Filter.Tokens
import ScimQuery.Proofs.Literal.Local
import ScimQuery.Proofs.Text.Atoms

/-!
# Filter — the delimiters of a phrase

What a reader takes from the front of a text has the delimiters that show in what it gives, and no
others outside of strings.

* `Json.SpellsAll.stringBody`: a string ends at the first quote that is not escaped.
* `Literal.scan_neutral`: a comparison value has no delimiters.
* `Phrase.read_delimiters`: a phrase has those that open or close a group or a value filter.
-/

namespace ScimQuery

open Text (Cursor Neutral Plain StringBody delimiters isSolid)

/-! ### Strings -/

namespace Json

variable {cs rest e : List Char}

theorem IsHexDigit.plain {n : Nat} {c : Char} (h : IsHexDigit n c) : c ≠ '"' ∧ c ≠ '\\' := by
  have hvalue := hexValue?_eq_some_iff.mpr h
  refine ⟨?_, ?_⟩ <;> rintro rfl <;> cases hvalue

theorem Hex4.stringBody {n : Nat} (h : Hex4 n e) : StringBody e := by
  obtain ⟨hx, hy, hz, hw⟩ := h
  refine .of_forall ?_
  simp only [List.forall_mem_cons]
  exact ⟨hx.plain, hy.plain, hz.plain, hw.plain, by simp⟩

theorem SpellsNumber.stringBody {c : Char} (h : SpellsNumber c e) : StringBody e := by
  cases h with
  | basic h => exact h.stringBody
  | surrogates _ hhigh hlow => exact hhigh.stringBody.append (.escaped 'u' hlow.stringBody)

theorem Spells.stringBody {c : Char} (h : Spells c e) : StringBody e := by
  cases h with
  | raw hquote hbackslash _ => exact .plain hquote hbackslash .nil
  | short _ => exact .escaped _ .nil
  | number h => exact .escaped 'u' h.stringBody

/-- A string ends at the first quote that is not escaped. -/
theorem SpellsAll.stringBody (h : SpellsAll cs e) : StringBody e := by
  induction h with
  | nil => exact .nil
  | cons h _ ih => exact h.stringBody.append ih

/-! ### Other values -/

theorem isSolid_of_isMark {c : Char} (h : isMark c = true) : isSolid c = true :=
  Text.isSolid_of_class (by decide) h

theorem plain_of_isSpace {c : Char} (h : isSpace c = true) : Plain c :=
  Text.plain_of_class (by decide) h

/-- The text of a value that is neither a list nor an object is a string, or has characters of a
word only. -/
theorem readValue_solid {cs : List Char} {v : Value} (h : readValue cs = .ok (v.toJson, [])) :
    (∃ body, StringBody body ∧ cs = '"' :: body ++ ['"']) ∨ ∀ c ∈ cs, isSolid c = true := by
  cases readValue_scalar.mp h with
  | @word w _ hw =>
      right
      have hall : words.all (fun p => p.1.all isSolid) = true := by decide
      have hsolid := List.all_eq_true.mp (List.all_eq_true.mp hall _ hw)
      simpa using hsolid
  | @string ds body hbody => exact .inl ⟨body, hbody.stringBody, rfl⟩
  | @number c cs m _ hnumeral =>
      right
      obtain ⟨d, digits, hcs, hd, w, hw, hmarks⟩ := readNumeral_leaves hnumeral
      cases hcs
      rw [List.append_nil] at hw
      subst hw
      have hall : ∀ e ∈ c :: w, isMark e = true := List.forall_mem_cons.mpr ⟨hd, hmarks⟩
      exact fun e he => isSolid_of_isMark (hall e he)

/-- A value that is neither a list nor an object has no delimiters outside of strings. -/
theorem readValue_neutral {v : Value} (h : readValue cs = .ok (v.toJson, [])) : Neutral cs := by
  rcases readValue_solid h with ⟨body, hbody, rfl⟩ | hsolid
  · rw [List.cons_append]
    exact Text.passes_quote.append (hbody.passes.append Text.passes_endQuote)
  · exact Text.neutral_of_plain fun d hd => Text.plain_of_isSolid (hsolid d hd)

end Json

/-! ### Comparison values -/

/-- A comparison value and the spaces around it have no delimiters outside of strings. -/
theorem Literal.scan_neutral {s : List Char} {l : Literal} (h : scan s = .ok (some l)) :
    delimiters (s.drop l.length) = delimiters s := by
  obtain ⟨w, c, cs, q, rfl, hw, -, hread, hlength, -⟩ := exists_spelling h
  have hneutral := Json.readValue_neutral hread
  have hspaces : Neutral w := Text.neutral_of_plain fun d hd => Json.plain_of_isSpace (hw d hd)
  have hdelimiters : delimiters (w ++ c :: cs ++ q) = delimiters q :=
    (hspaces.append hneutral) q
  have hdrop : (w ++ c :: cs ++ q).drop (w.length + (c :: cs).length) = q := by
    rw [← List.length_append, List.drop_left]
  rw [hdelimiters, hlength]
  split
  · rename_i hnext
    obtain ⟨tail, rfl⟩ := List.head?_eq_some_iff.mp hnext
    rw [← List.drop_drop, hdrop]
    exact (Text.delimiters_cons_plain (by decide) tail).symm
  · rw [hdrop]

/-! ### Tokens -/

/-- The delimiter that a token has. -/
def Token.delimiters : Token → List Char
  | .openParen => ['(']
  | .closeParen => [')']
  | .closeBracket => [']']
  | .word _ => []
  | .valuePath _ => ['[']

theorem Token.neutral_of_word {w : List Char} (hw : ∀ c ∈ w, Text.isWordChar c = true) :
    Neutral w :=
  Text.neutral_of_plain fun c hc => Text.plain_of_isWordChar (hw c hc)

theorem Text.delimiters_pastSpace (c : Cursor) :
    delimiters c.pastSpace.rest = delimiters c.rest := by
  unfold Cursor.pastSpace
  split
  · exact (delimiters_cons_plain (by decide) _).symm
  · rfl

theorem Token.read_delimiters {region : Region} {c : Cursor} {l : Lexeme}
    (h : read region c = .ok (some l)) :
    Text.delimiters c.rest = l.token.delimiters ++ Text.delimiters l.next.rest := by
  have hlexes := read_eq_some_iff.mp h
  clear h
  induction hlexes with
  | @space p cs l _ ih =>
      have hspace : Plain ' ' := by decide
      exact (Text.delimiters_cons_plain hspace cs).trans ih
  | @word p w s _ hw _ =>
      rw [Text.delimiters_pastSpace]
      exact neutral_of_word hw s
  | @valuePath p w s hw =>
      exact (neutral_of_word hw ('[' :: s)).trans (Text.delimiters_cons_delimiter rfl s)
  | @delimiter p d s t ht =>
      rcases ofDelimiter?_cases ht with ⟨rfl, rfl⟩ | ⟨rfl, rfl⟩ | ⟨rfl, rfl, -⟩ <;>
        exact Text.delimiters_cons_delimiter rfl s

theorem Token.delimiters_of_read_none {region : Region} {c : Cursor}
    (h : read region c = .ok none) : Text.delimiters c.rest = [] := by
  have hspace : Plain ' ' := by decide
  have hneutral : Neutral c.rest := by
    refine Text.neutral_of_plain ?_
    intro d hd
    rw [read_eq_none_iff.mp h d hd]
    exact hspace
  have hempty := hneutral []
  rw [List.append_nil] at hempty
  exact hempty

/-! ### Phrases -/

namespace Phrase

/-- The delimiter of a phrase that opens or closes a group or a value filter. -/
def delimiters : Phrase → List Char
  | .operand _ => []
  | .openGroup _ => ['(']
  | .openValue _ _ => ['[']
  | .join _ => []
  | .closeGroup _ => [')']
  | .closeValue => [']']

theorem readValue_delimiters {c after : Cursor} {v : Value} (h : readValue c = .ok (v, after)) :
    Text.delimiters c.rest = Text.delimiters after.rest := by
  unfold readValue at h
  split at h
  · cases h
  · cases h
  · rename_i hscan
    cases h
    exact (Literal.scan_neutral hscan).symm

theorem readCondition_delimiters {region : Region} {word : List Char} {position : Nat}
    {c after : Cursor} {f : Filter} (h : readCondition region word position c = .ok (f, after)) :
    Text.delimiters c.rest = Text.delimiters after.rest := by
  cases readCondition_eq_ok_iff.mp h with
  | present _ htoken => exact Token.read_delimiters htoken
  | compare _ htoken _ _ hvalue =>
      exact (Token.read_delimiters htoken).trans (readValue_delimiters hvalue)

/-- **A phrase has the delimiters that open or close what it does.** -/
theorem read_delimiters {region : Region} {operandDue : Bool} {c after : Cursor} {phrase : Phrase}
    (h : read region operandDue c = .ok (some (phrase, after))) :
    Text.delimiters c.rest = phrase.delimiters ++ Text.delimiters after.rest := by
  cases read_eq_some_iff.mp h with
  | openGroup htoken => exact Token.read_delimiters htoken
  | openNegated htoken _ hparen =>
      exact (Token.read_delimiters htoken).trans (Token.read_delimiters hparen)
  | operand htoken _ hcondition =>
      exact (Token.read_delimiters htoken).trans (readCondition_delimiters hcondition)
  | openValue htoken => exact Token.read_delimiters htoken
  | join htoken => exact Token.read_delimiters htoken
  | closeGroup htoken => exact Token.read_delimiters htoken
  | closeValue htoken => exact Token.read_delimiters htoken

/-- A value filter is closed only where one is read. -/
theorem region_of_read_closeValue {region : Region} {operandDue : Bool} {c after : Cursor}
    (h : read region operandDue c = .ok (some (.closeValue, after))) : region = .valueFilter := by
  cases read_eq_some_iff.mp h with
  | closeValue htoken => exact Token.read_closeBracket htoken

end Phrase

end ScimQuery
