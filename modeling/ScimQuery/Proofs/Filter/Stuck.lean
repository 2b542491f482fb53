import ScimQuery.Proofs.Error.Shift
import ScimQuery.Proofs.Filter.Completion

/-!
# Filter — where a phrase cannot go on

A phrase is refused at the first token, or at the value, that cannot stand in it: what is in front
of this is the beginning of a phrase (`Phrase.Stuck`, `Phrase.read_stuck`).  If the text ends inside
a phrase, what has been read of it is such a beginning as well.

* `Token.read_eq_error`, `Lexes.exists_spaces`: a token is refused, or stands, behind spaces.
* `Token.exists_word`: a word comes with what ends it.
-/

namespace ScimQuery

open Text (Cursor isBlank isWordChar isKeyword)

/-- Where the token starts that an error is about. -/
def Error.tokenStart? : Error → Option Nat
  | .unexpectedCharacter _ _ tokenStart => some tokenStart
  | e => e.position?

theorem Error.tokenStart?_shift (k : Nat) (e : Error) :
    (e.shift k).tokenStart? = e.tokenStart?.map (· + k) := by
  cases e <;> rfl

theorem Error.tokenStart?_of_places_nil {e : Error} (h : e.places = []) :
    e.tokenStart? = none := by
  cases e <;> first | rfl | cases h

/-! ### Spaces -/

namespace Text

theorem Cursor.exists_pastSpace (p : Nat) (cs : List Char) :
    ∃ n s, cs = List.replicate n ' ' ++ s ∧ Cursor.pastSpace ⟨p, cs⟩ = ⟨p + n, s⟩ := by
  by_cases hspace : ' ' ∈ cs.head?
  · obtain ⟨s, rfl⟩ := List.head?_eq_some_iff.mp hspace
    exact ⟨1, s, rfl, rfl⟩
  · exact ⟨0, cs, rfl, Cursor.pastSpace_eq_self hspace⟩

end Text

/-- Where there is no value, there is nothing but spaces. -/
theorem Literal.isBlank_of_scan {s : List Char} (h : scan s = .ok none) :
    ∀ d ∈ s, isBlank d = true := by
  obtain ⟨w, body, rfl, hw, hbody⟩ := Text.exists_run Json.isSpace s
  cases body with
  | nil =>
      intro d hd
      rw [List.append_nil] at hd
      have hspace := hw d hd
      simp only [Json.isSpace, Bool.or_eq_true, beq_iff_eq] at hspace
      rcases hspace with ((rfl | rfl) | rfl) | rfl <;> decide
  | cons c cs =>
      by_cases hnone : extent (c :: cs) = []
      · rw [scan_missing hw (hbody c rfl) hnone] at h
        cases h
      · rw [scan_run hw (hbody c rfl) hnone] at h
        cases hjudge : judge (extent (c :: cs)) <;> simp [hjudge, Except.map] at h

/-! ### Tokens -/

namespace Token

variable {region : Region} {p : Nat} {cs : List Char}

/-- A character that no token may hold is refused with the token that starts behind spaces. -/
theorem read_eq_error {e : Error} (h : read region ⟨p, cs⟩ = .error e) :
    ∃ n s, cs = List.replicate n ' ' ++ s ∧ e.tokenStart? = some (p + n) := by
  obtain ⟨n, s, rfl, hs⟩ := Text.exists_spaces cs
  refine ⟨n, s, rfl, ?_⟩
  rw [read_replicate] at h
  obtain ⟨w, s, rfl, hw, hstop⟩ := Text.exists_run isWordChar s
  cases s with
  | nil =>
      rw [List.append_nil, read_run_nil hw] at h
      cases h
  | cons d s =>
      rw [read_run_cons hw (hstop d rfl) (by rintro rfl rfl; simp at hs)] at h
      split at h
      · cases h
      split at h
      · cases h
      split at h
      · split at h <;> cases h
      · cases h
        rfl

/-- A token stands behind spaces. -/
theorem Lexes.exists_spaces {c : Cursor} {l : Lexeme} (h : Lexes region c l) :
    ∃ n s, c.rest = List.replicate n ' ' ++ s ∧ l.position = c.position + n := by
  induction h with
  | @space p cs l _ ih =>
      obtain ⟨n, s, hrest, hposition⟩ := ih
      refine ⟨n + 1, s, congrArg (' ' :: ·) hrest, ?_⟩
      rw [hposition, Nat.add_assoc, Nat.add_comm 1]
  | word => exact ⟨0, _, rfl, rfl⟩
  | valuePath => exact ⟨0, _, rfl, rfl⟩
  | delimiter => exact ⟨0, _, rfl, rfl⟩

/-- A word stands behind spaces and in front of what ends it. -/
theorem exists_word {c next : Cursor} {w : List Char} {k : Nat}
    (h : read region c = .ok (some ⟨.word w, k, next⟩)) :
    ∃ n s, c.rest = List.replicate n ' ' ++ w ++ s ∧ Ends region s ∧
      next = Cursor.pastSpace ⟨c.position + (List.replicate n ' ' ++ w).length, s⟩ := by
  have hlex := read_eq_some_iff.mp h
  clear h
  generalize hl : (⟨.word w, k, next⟩ : Lexeme) = l at hlex
  induction hlex with
  | @space p cs l _ ih =>
      obtain ⟨n, s, hrest, hends, hnext⟩ := ih hl
      refine ⟨n + 1, s, congrArg (' ' :: ·) hrest, hends, ?_⟩
      rw [hnext, List.replicate_succ, List.cons_append, List.length_cons, Nat.add_assoc,
        Nat.add_comm 1]
  | @word p w' s _ _ hs =>
      cases hl
      exact ⟨0, s, rfl, hs, rfl⟩
  | valuePath => cases hl
  | delimiter ht =>
      cases hl
      rcases ofDelimiter?_cases ht with ⟨-, h⟩ | ⟨-, h⟩ | ⟨-, h, -⟩ <;> cases h

/-- A closing bracket stands behind spaces. -/
theorem exists_closeBracket {c next : Cursor} {k : Nat}
    (h : read region c = .ok (some ⟨.closeBracket, k, next⟩)) :
    ∃ n s, c.rest = List.replicate n ' ' ++ ']' :: s := by
  have hlex := read_eq_some_iff.mp h
  clear h
  generalize hl : (⟨.closeBracket, k, next⟩ : Lexeme) = l at hlex
  induction hlex with
  | space _ ih =>
      obtain ⟨n, s, hrest⟩ := ih hl
      exact ⟨n + 1, s, congrArg (' ' :: ·) hrest⟩
  | word => cases hl
  | valuePath => cases hl
  | delimiter ht =>
      cases hl
      rcases ofDelimiter?_cases ht with ⟨-, h⟩ | ⟨-, h⟩ | ⟨rfl, -, -⟩
      · cases h
      · cases h
      · exact ⟨0, _, rfl⟩

/-- What ends a word and starts with a word behind spaces starts with a space. -/
theorem Ends.exists_succ {n : Nat} {w s : List Char}
    (h : Ends region (List.replicate n ' ' ++ w ++ s)) (hw : (Token.word w).Spelled) :
    ∃ m, n = m + 1 := by
  cases n with
  | succ m => exact ⟨m, rfl⟩
  | zero =>
      obtain ⟨hne, hword⟩ := hw
      obtain ⟨d, w, rfl⟩ := List.exists_cons_of_ne_nil hne
      have hstop := h.isWordChar d rfl
      rw [hword d (by simp)] at hstop
      cases hstop

end Token

/-! ### Phrases -/

namespace Phrase

variable {region : Region} {due : Bool} {c : Cursor} {e : Error}

/-- Reading stops behind the beginning of a phrase and spaces: at the token that stands there, or
since there is none. -/
def Stuck (due : Bool) (c : Cursor) (e : Error) : Prop :=
  ∃ v n s, Begun due v ∧ c.rest = v ++ (List.replicate n ' ' ++ s) ∧
    (e.tokenStart? = some (c.position + v.length + n) ∨
      e = .unexpectedEndOfFilter ∧ ∀ d ∈ s, isBlank d = true)

section

variable {v s : List Char}

theorem Stuck.of_error (hv : Begun due v) (hrest : c.rest = v ++ s)
    (h : Token.read region ⟨c.position + v.length, s⟩ = .error e) : Stuck due c e := by
  obtain ⟨n, s, rfl, hstart⟩ := Token.read_eq_error h
  exact ⟨v, n, s, hv, hrest, .inl hstart⟩

theorem Stuck.of_token {l : Token.Lexeme} (hv : Begun due v) (hrest : c.rest = v ++ s)
    (h : Token.read region ⟨c.position + v.length, s⟩ = .ok (some l))
    (he : e.tokenStart? = some l.position) : Stuck due c e := by
  obtain ⟨n, s, rfl, hposition⟩ := (Token.read_eq_some_iff.mp h).exists_spaces
  exact ⟨v, n, s, hv, hrest, .inl (hposition ▸ he)⟩

theorem Stuck.of_end (hv : Begun due v) (hrest : c.rest = v ++ s)
    (h : Token.read region ⟨c.position + v.length, s⟩ = .ok none) :
    Stuck due c .unexpectedEndOfFilter := by
  refine ⟨v, 0, s, hv, hrest, .inr ⟨rfl, ?_⟩⟩
  intro d hd
  rw [Token.read_eq_none_iff.mp h d hd]
  rfl

/-- There is no value, or there is nothing but spaces. -/
theorem Stuck.of_value (hv : Begun due v) (hrest : c.rest = v ++ s)
    (h : readValue (Cursor.pastSpace ⟨c.position + v.length, s⟩) = .error e) : Stuck due c e := by
  obtain ⟨n, s, rfl, hpast⟩ := Cursor.exists_pastSpace (c.position + v.length) s
  refine ⟨v, n, s, hv, hrest, ?_⟩
  rw [hpast] at h
  unfold readValue at h
  split at h
  · cases h
    exact .inl rfl
  · rename_i hscan
    cases h
    exact .inr ⟨rfl, Literal.isBlank_of_scan hscan⟩
  · cases h

end

/-- No phrase starts with the token. -/
theorem Stuck.at_token {l : Token.Lexeme} (h : Token.read region c = .ok (some l))
    (he : e.tokenStart? = some l.position) : Stuck due c e :=
  .of_token .start rfl h he

variable {w : List Char} {k : Nat} {next : Cursor}

theorem readNegated_stuck (htoken : Token.read region c = .ok (some ⟨.word w, k, next⟩))
    (hnot : isKeyword w "not" = true) (h : readNegated region next = .error e) :
    Stuck true c e := by
  obtain ⟨n, s, hrest, -, rfl⟩ := Token.exists_word htoken
  have hv : Begun true (List.replicate n ' ' ++ w) := .negation (Token.read_spelled htoken) hnot
  unfold readNegated at h
  rw [Token.read_pastSpace] at h
  split at h
  · rename_i herror
    cases h
    exact .of_error hv hrest herror
  · rename_i hend
    cases h
    exact .of_end hv hrest hend
  · cases h
  · rename_i hother
    cases h
    exact .of_token hv hrest hother rfl

theorem readCondition_stuck (htoken : Token.read region c = .ok (some ⟨.word w, k, next⟩))
    (hnot : isKeyword w "not" = false) (h : readCondition region w k next = .error e) :
    Stuck true c e := by
  obtain ⟨n, s, hrest, hends, rfl⟩ := Token.exists_word htoken
  have hw := Token.read_spelled htoken
  unfold readCondition readPath at h
  rw [Token.read_pastSpace] at h
  cases hpath : Path.ofWord w with
  | error reason =>
      simp only [hpath] at h
      cases h
      exact .at_token htoken rfl
  | ok path =>
      have hv : Begun true (List.replicate n ' ' ++ w) := .named hw hnot hpath
      simp only [hpath] at h
      split at h
      · rename_i herror
        cases h
        exact .of_error hv hrest herror
      · rename_i hend
        cases h
        exact .of_end hv hrest hend
      · rename_i o place next hop
        split at h
        · cases h
        rename_i hpresent
        split at h
        · cases h
          exact .of_token hv hrest hop rfl
        rename_i operator hoperator
        split at h
        · rename_i hvalue
          cases h
          have ho := Token.read_spelled hop
          obtain ⟨m, s, rfl, -, rfl⟩ := Token.exists_word hop
          obtain ⟨m, rfl⟩ := hends.exists_succ ho
          have hv' : Begun true
              (List.replicate n ' ' ++ w ++ (List.replicate (m + 1) ' ' ++ o)) :=
            .operator hw hnot hpath ho (Bool.eq_false_iff.mpr hpresent) hoperator
          refine .of_value (s := s) hv' (hrest.trans (by simp)) ?_
          rwa [List.length_append, ← Nat.add_assoc]
        · cases h
      · rename_i hother
        cases h
        exact .of_token hv hrest hother rfl

theorem readOperand_stuck {t : Token} (htoken : Token.read region c = .ok (some ⟨t, k, next⟩))
    (h : readOperand region t k next = .error e) : Stuck true c e := by
  unfold readOperand at h
  split at h
  · cases h
  · split at h
    · rename_i hnot
      exact readNegated_stuck htoken hnot h
    rename_i hnot
    split at h
    · rename_i hcondition
      cases h
      exact readCondition_stuck htoken (Bool.eq_false_iff.mpr hnot) hcondition
    · cases h
  · split at h
    · cases h
      exact .at_token htoken rfl
    split at h
    · rename_i hpath
      cases h
      obtain ⟨reason, rfl⟩ := readPath_eq_error hpath
      exact .at_token htoken rfl
    · cases h
  · cases h
    exact .at_token htoken rfl
  · cases h
    exact .at_token htoken rfl

theorem ofToken_stuck {t : Token} (htoken : Token.read region c = .ok (some ⟨t, k, next⟩))
    (h : ofToken t k = .error e) : Stuck due c e := by
  obtain rfl := ofToken_eq_error h
  exact .at_token htoken rfl

/-- **A phrase that is refused has a beginning**, up to the token or the value that is refused, or
up to the end of the text. -/
theorem read_stuck (h : read region due c = .error e) : Stuck due c e := by
  unfold read at h
  split at h
  · rename_i herror
    cases h
    exact .of_error .start rfl herror
  · cases h
  · rename_i htoken
    split at h
    · rename_i hdue
      subst hdue
      split at h
      · rename_i hoperand
        cases h
        exact readOperand_stuck htoken hoperand
      · cases h
    · split at h
      · rename_i hphrase
        cases h
        exact ofToken_stuck htoken hphrase
      · cases h

end Phrase

end ScimQuery
