import ScimQuery.Filter.Token
import ScimQuery.Proofs.Text.Runs

/-!
# Filter — tokens and their texts

`Token.Lexes region c l` says from the text alone what the token at a place is: after any
spaces, a word up to a character that ends it, a word and an opening bracket, or a delimiter.
`Token.read_eq_some_iff` is the agreement of `Token.read` with it, `Token.read_eq_none_iff` the
case of a text without a token.

A word does not depend on what follows it but for the one space it takes, so that a token stays
the token it is when its text goes on, at a closing character, or stands further inside another
text (`Token.read_within`).  A text that is read in a filter is read alike in a value filter,
where a closing bracket is one more delimiter (`Region.le`).
-/

namespace ScimQuery

open Text (Cursor isWordChar isWordChar_eq_false)

/-- The tokens of the first region are tokens of the second. -/
def Region.le : Region → Region → Prop
  | .valueFilter, .filter => False
  | _, _ => True

namespace Token

/-- What may follow a word: nothing, a space or a closing character. -/
def Ends (region : Region) (tail : List Char) : Prop :=
  ∀ d ∈ tail.head?, d = ' ' ∨ (ofDelimiter? region d).isSome

/-- What the token at a place is, by the text in front of it. -/
inductive Lexes (region : Region) : Cursor → Lexeme → Prop where
  | space {p : Nat} {cs : List Char} {l : Lexeme} :
      Lexes region ⟨p + 1, cs⟩ l → Lexes region ⟨p, ' ' :: cs⟩ l
  | word {p : Nat} {w s : List Char} : w ≠ [] → (∀ c ∈ w, isWordChar c = true) →
      Ends region s →
      Lexes region ⟨p, w ++ s⟩ ⟨.word w, p, Cursor.pastSpace ⟨p + w.length, s⟩⟩
  | valuePath {p : Nat} {w s : List Char} : (∀ c ∈ w, isWordChar c = true) →
      Lexes region ⟨p, w ++ '[' :: s⟩ ⟨.valuePath w, p, ⟨p + w.length + 1, s⟩⟩
  | delimiter {p : Nat} {d : Char} {s : List Char} {t : Token} :
      ofDelimiter? region d = some t → Lexes region ⟨p, d :: s⟩ ⟨t, p, ⟨p + 1, s⟩⟩

/-! ### Delimiters -/

/-- The four delimiters with their tokens. -/
theorem ofDelimiter?_cases {region : Region} {d : Char} {t : Token}
    (h : ofDelimiter? region d = some t) :
    (d = '(' ∧ t = .openParen) ∨ (d = ')' ∧ t = .closeParen) ∨
      (d = ']' ∧ t = .closeBracket ∧ region = .valueFilter) := by
  unfold ofDelimiter? at h
  split at h
  · cases h; exact .inl ⟨‹_›, rfl⟩
  · split at h
    · cases h; exact .inr (.inl ⟨‹_›, rfl⟩)
    · split at h
      · cases h; exact .inr (.inr ⟨‹_ ∧ _›.1, rfl, ‹_ ∧ _›.2⟩)
      · cases h

theorem isWordChar_delimiter {region : Region} {d : Char} {t : Token}
    (h : ofDelimiter? region d = some t) : isWordChar d = false := by
  rcases ofDelimiter?_cases h with ⟨rfl, -⟩ | ⟨rfl, -⟩ | ⟨rfl, -, -⟩ <;>
    exact isWordChar_eq_false (by simp)

theorem ofDelimiter?_mono {region region' : Region} (hr : region.le region') {d : Char}
    {t : Token} (h : ofDelimiter? region d = some t) : ofDelimiter? region' d = some t := by
  rcases ofDelimiter?_cases h with ⟨rfl, rfl⟩ | ⟨rfl, rfl⟩ | ⟨rfl, rfl, rfl⟩
  · rfl
  · rfl
  · cases region' with
    | filter => exact hr.elim
    | valueFilter => rfl

theorem Ends.isWordChar {region : Region} {tail : List Char} (h : Ends region tail) :
    ∀ d ∈ tail.head?, isWordChar d = false := by
  intro d hd
  rcases h d hd with rfl | hd
  · exact isWordChar_eq_false (by simp)
  · obtain ⟨t, ht⟩ := Option.isSome_iff_exists.mp hd
    exact isWordChar_delimiter ht

theorem Ends.mono {region region' : Region} (hr : region.le region') {tail : List Char}
    (h : Ends region tail) : Ends region' tail := by
  intro d hd
  refine (h d hd).imp_right ?_
  intro hd
  obtain ⟨t, ht⟩ := Option.isSome_iff_exists.mp hd
  exact Option.isSome_iff_exists.mpr ⟨t, ofDelimiter?_mono hr ht⟩

theorem Ends.append {region : Region} {tail more : List Char} (h : Ends region tail)
    (hmore : Ends region more) : Ends region (tail ++ more) := by
  cases tail with
  | nil => exact hmore
  | cons d tail => exact h

/-! ### Reading is lexing -/

theorem read_space (region : Region) (p : Nat) (cs : List Char) :
    read region ⟨p, ' ' :: cs⟩ = read region ⟨p + 1, cs⟩ := by
  have start : (⟨p, ' ' :: cs⟩ : Cursor).skipWhile (· == ' ') =
      (⟨p + 1, cs⟩ : Cursor).skipWhile (· == ' ') := by
    simp only [Cursor.skipWhile, List.takeWhile_cons, List.dropWhile_cons, beq_self_eq_true,
      if_true, List.length_cons, Nat.add_assoc, Nat.add_comm 1]
  simp only [read, start]

theorem skipWhile_space_eq_self {p : Nat} {cs : List Char} (h : ' ' ∉ cs.head?) :
    (⟨p, cs⟩ : Cursor).skipWhile (· == ' ') = ⟨p, cs⟩ := by
  refine Cursor.skipWhile_run (w := []) (by simp) ?_ p
  intro d hd
  exact beq_false_of_ne fun e => h (e ▸ hd)

theorem space_not_mem_head {w s : List Char} (hw : ∀ c ∈ w, isWordChar c = true)
    (hs : w = [] → ' ' ∉ s.head?) : ' ' ∉ (w ++ s).head? := by
  cases w with
  | nil => exact hs rfl
  | cons c w =>
      intro hc
      obtain rfl : c = ' ' := by simpa using hc
      have := hw ' ' (by simp)
      rw [isWordChar_eq_false (by simp)] at this
      cases this

/-- Reading a text that is a word. -/
theorem read_run_nil {region : Region} {p : Nat} {w : List Char}
    (hw : ∀ c ∈ w, isWordChar c = true) :
    read region ⟨p, w⟩ =
      .ok (if w.isEmpty then none else some ⟨.word w, p, ⟨p + w.length, []⟩⟩) := by
  have start := skipWhile_space_eq_self (p := p)
    (space_not_mem_head (s := []) hw (fun _ => by simp))
  have stop := Cursor.skipWhile_run (s := []) hw (by simp) p
  have word := Text.takeWhile_run (s := []) hw (by simp)
  rw [List.append_nil] at start stop word
  simp only [read, start, stop, word]

/-- Reading a text by its first word and the character that stops it. -/
theorem read_run_cons {region : Region} {p : Nat} {w : List Char} {d : Char} {s : List Char}
    (hw : ∀ c ∈ w, isWordChar c = true) (hd : isWordChar d = false) (hspace : w = [] → d ≠ ' ') :
    read region ⟨p, w ++ d :: s⟩ =
      if d = ' ' then .ok (some ⟨.word w, p, ⟨p + w.length + 1, s⟩⟩)
      else if d = '[' then .ok (some ⟨.valuePath w, p, ⟨p + w.length + 1, s⟩⟩)
      else
        match ofDelimiter? region d with
        | some token =>
          if w.isEmpty then .ok (some ⟨token, p, ⟨p + w.length + 1, s⟩⟩)
          else .ok (some ⟨.word w, p, ⟨p + w.length, d :: s⟩⟩)
        | none => .error (.unexpectedCharacter d (p + w.length) p) := by
  have start := skipWhile_space_eq_self (p := p)
    (space_not_mem_head (s := d :: s) hw (fun e => by simpa using hspace e))
  have stop := Cursor.skipWhile_run (s := d :: s) hw (by simpa using hd) p
  have word := Text.takeWhile_run (s := d :: s) hw (by simpa using hd)
  cases htoken : ofDelimiter? region d with
  | none => simp only [read, start, stop, word, htoken]
  | some token => simp only [read, start, stop, word, htoken]

theorem delimiter_ne {region : Region} {d : Char} {t : Token}
    (h : ofDelimiter? region d = some t) : d ≠ ' ' ∧ d ≠ '[' := by
  rcases ofDelimiter?_cases h with ⟨rfl, -⟩ | ⟨rfl, -⟩ | ⟨rfl, -, -⟩ <;> decide

theorem read_of_lexes {region : Region} {c : Cursor} {l : Lexeme} (h : Lexes region c l) :
    read region c = .ok (some l) := by
  induction h with
  | space _ ih => rw [read_space, ih]
  | @word p w s hne hw hend =>
      cases s with
      | nil => simp [read_run_nil hw, hne, Cursor.pastSpace]
      | cons d s =>
          rw [read_run_cons hw (hend.isWordChar d rfl) (fun e => absurd e hne)]
          rcases hend d rfl with rfl | hd
          · rfl
          · obtain ⟨t, ht⟩ := Option.isSome_iff_exists.mp hd
            obtain ⟨hspace, hopen⟩ := delimiter_ne ht
            rw [Cursor.pastSpace_eq_self (by simpa using hspace)]
            simp [hspace, hopen, ht, hne]
  | @valuePath p w s hw =>
      rw [read_run_cons hw (isWordChar_eq_false (by simp)) (by simp)]
      rfl
  | @delimiter p d s t ht =>
      obtain ⟨hspace, hopen⟩ := delimiter_ne ht
      have hread : read region ⟨p, [] ++ d :: s⟩ = _ :=
        read_run_cons (by simp) (isWordChar_delimiter ht) (fun _ => hspace)
      rw [List.nil_append] at hread
      simp [hread, hspace, hopen, ht]

/-- The token of a text, by its first word and the character that stops it. -/
theorem lexes_of_read_run {region : Region} {p : Nat} {w : List Char} {d : Char} {s : List Char}
    {l : Lexeme} (hw : ∀ c ∈ w, isWordChar c = true) (hd : isWordChar d = false)
    (hspace : w = [] → d ≠ ' ') (h : read region ⟨p, w ++ d :: s⟩ = .ok (some l)) :
    Lexes region ⟨p, w ++ d :: s⟩ l := by
  rw [read_run_cons hw hd hspace] at h
  split at h
  · rename_i hd
    cases h
    subst hd
    exact .word (fun hempty => hspace hempty rfl) hw (by simp [Ends])
  · rename_i hd
    split at h
    · rename_i hopen
      cases h
      subst hopen
      exact .valuePath hw
    · split at h
      · rename_i t ht
        split at h
        · rename_i hempty
          obtain rfl : w = [] := by simpa using hempty
          cases h
          exact .delimiter ht
        · rename_i hword
          cases h
          have hlex : Lexes region ⟨p, w ++ d :: s⟩ _ :=
            .word (by simpa using hword) hw (by simp [Ends, ht])
          rwa [Cursor.pastSpace_eq_self (by simpa using hd)] at hlex
      · cases h

theorem lexes_of_read {region : Region} :
    ∀ {cs : List Char} {p : Nat} {l : Lexeme}, read region ⟨p, cs⟩ = .ok (some l) →
      Lexes region ⟨p, cs⟩ l := by
  intro cs
  obtain ⟨spaces, cs, rfl, hspaces, hcs⟩ := Text.exists_run (· == ' ') cs
  -- the spaces in front are taken one by one, then there is a run
  induction spaces with
  | cons c spaces ih =>
      intro p l h
      obtain rfl : c = ' ' := by simpa using hspaces c (by simp)
      rw [List.cons_append, read_space] at h
      exact .space (ih (fun c hc => hspaces c (by simp [hc])) h)
  | nil =>
      intro p l h
      rw [List.nil_append] at h ⊢
      obtain ⟨w, s, rfl, hw, hs⟩ := Text.exists_run isWordChar cs
      cases s with
      | nil =>
          rw [List.append_nil, read_run_nil hw] at h
          split at h
          · cases h
          · rename_i hne
            cases h
            exact .word (by simpa using hne) hw (by simp [Ends])
      | cons d s =>
          refine lexes_of_read_run hw (hs d rfl) ?_ h
          rintro rfl rfl
          simpa using hcs ' ' rfl

/-- **The token at a place**, by the text in front of it. -/
theorem read_eq_some_iff {region : Region} {c : Cursor} {l : Lexeme} :
    read region c = .ok (some l) ↔ Lexes region c l :=
  ⟨lexes_of_read, read_of_lexes⟩

/-- There is no token in front of spaces, and only there. -/
theorem read_eq_none_iff {region : Region} {p : Nat} {cs : List Char} :
    read region ⟨p, cs⟩ = .ok none ↔ ∀ c ∈ cs, c = ' ' := by
  obtain ⟨spaces, cs, rfl, hspaces, hcs⟩ := Text.exists_run (· == ' ') cs
  induction spaces generalizing p with
  | cons c spaces ih =>
      obtain rfl : c = ' ' := by simpa using hspaces c (by simp)
      rw [List.cons_append, read_space, ih (fun c hc => hspaces c (by simp [hc]))]
      simp
  | nil =>
      rw [List.nil_append]
      obtain ⟨w, s, rfl, hw, hs⟩ := Text.exists_run isWordChar cs
      constructor
      · intro h
        cases s with
        | nil =>
            rw [List.append_nil, read_run_nil hw] at h
            obtain rfl : w = [] := by simpa using h
            simp
        | cons d s =>
            have hne : w = [] → d ≠ ' ' := by rintro rfl rfl; simpa using hcs ' ' rfl
            rw [read_run_cons hw (hs d rfl) hne] at h
            repeat' split at h
            all_goals cases h
      · intro h
        have hnil : w ++ s = [] := by
          cases hc : w ++ s with
          | nil => rfl
          | cons d more =>
              obtain rfl := h d (by simp [hc])
              simpa using hcs ' ' (by simp [hc])
        rw [hnil]
        exact read_run_nil (by simp)

theorem read_word {region : Region} {w s : List Char} (k : Nat) (hne : w ≠ [])
    (hw : ∀ c ∈ w, isWordChar c = true) (hs : Ends region s) :
    read region ⟨k, w ++ s⟩ = .ok (some ⟨.word w, k, Cursor.pastSpace ⟨k + w.length, s⟩⟩) :=
  read_of_lexes (.word hne hw hs)

theorem read_spaced {region : Region} {w s : List Char} (k : Nat) (hne : w ≠ [])
    (hw : ∀ c ∈ w, isWordChar c = true) :
    read region ⟨k, w ++ ' ' :: s⟩ = .ok (some ⟨.word w, k, ⟨k + w.length + 1, s⟩⟩) :=
  read_word k hne hw (by simp [Ends])

/-- The characters of a token: those of words, one at least unless a bracket follows. -/
def Spelled : Token → Prop
  | .word w => w ≠ [] ∧ ∀ c ∈ w, isWordChar c = true
  | .valuePath w => ∀ c ∈ w, isWordChar c = true
  | _ => True

theorem Lexes.spelled {region : Region} {c : Cursor} {l : Lexeme} (h : Lexes region c l) :
    l.token.Spelled := by
  induction h with
  | space _ ih => exact ih
  | word hne hw _ => exact ⟨hne, hw⟩
  | valuePath hw => exact hw
  | delimiter ht =>
      rcases ofDelimiter?_cases ht with ⟨-, rfl⟩ | ⟨-, rfl⟩ | ⟨-, rfl, -⟩ <;> trivial

theorem read_spelled {region : Region} {c : Cursor} {l : Lexeme}
    (h : read region c = .ok (some l)) : l.token.Spelled :=
  (read_eq_some_iff.mp h).spelled

/-- A closing bracket is a token in a value filter only. -/
theorem read_closeBracket {region : Region} {c next : Cursor} {k : Nat}
    (h : read region c = .ok (some ⟨.closeBracket, k, next⟩)) : region = .valueFilter := by
  have hlex := read_eq_some_iff.mp h
  generalize hl : (⟨.closeBracket, k, next⟩ : Lexeme) = l at hlex
  induction hlex with
  | space hlex ih => exact ih (read_of_lexes (hl ▸ hlex)) hl
  | word => cases hl
  | valuePath => cases hl
  | delimiter ht =>
      cases hl
      rcases ofDelimiter?_cases ht with ⟨-, h⟩ | ⟨-, h⟩ | ⟨-, -, h⟩
      · cases h
      · cases h
      · exact h

/-! ### Tokens inside a longer text -/

/-- A lexeme that stands `before` characters on, in front of `tail`. -/
def Lexeme.within (before : Nat) (tail : List Char) (l : Lexeme) : Lexeme :=
  ⟨l.token, l.position + before, l.next.within before tail⟩

theorem read_pastSpace (region : Region) (c : Cursor) :
    read region c.pastSpace = read region c := by
  obtain ⟨p, cs⟩ := c
  by_cases h : ' ' ∈ cs.head?
  · obtain ⟨d, more, rfl⟩ : ∃ d more, cs = d :: more := by
      cases cs with
      | nil => simp at h
      | cons d more => exact ⟨d, more, rfl⟩
    obtain rfl : d = ' ' := by simpa using h
    rw [Cursor.pastSpace_space, read_space]
  · rw [Cursor.pastSpace_eq_self h]

theorem Lexes.within {region region' : Region} (hr : region.le region') {tail : List Char}
    (htail : Ends region' tail) (hspace : ' ' ∉ tail.head?) (before : Nat) {c : Cursor}
    {l : Lexeme} (h : Lexes region c l) :
    Lexes region' (c.within before tail) (l.within before tail) := by
  induction h with
  | @space p cs l _ ih =>
      rw [Cursor.within_mk, List.cons_append]
      refine .space ?_
      rwa [Cursor.within_mk, Nat.add_right_comm] at ih
  | @word p w s hne hw hs =>
      have hnext : (⟨p + before + w.length, s ++ tail⟩ : Cursor).pastSpace =
          (⟨p + w.length, s⟩ : Cursor).pastSpace.within before tail := by
        rw [Nat.add_right_comm, ← Cursor.within_mk, Cursor.pastSpace_within hspace]
      have := Lexes.word (p := p + before) hne hw ((hs.mono hr).append htail)
      rw [Cursor.within_mk, List.append_assoc]
      rwa [hnext] at this
  | @valuePath p w s hw =>
      have : Lexes region' ⟨p + before, w ++ '[' :: (s ++ tail)⟩ _ := .valuePath hw
      simpa [Lexeme.within, Nat.add_right_comm] using this
  | @delimiter p d s t ht =>
      have := Lexes.delimiter (p := p + before) (s := s ++ tail) (ofDelimiter?_mono hr ht)
      simpa [Lexeme.within, Nat.add_right_comm] using this

/-- A token stays the token it is inside a longer text that goes on with a closing character. -/
theorem read_within {region region' : Region} (hr : region.le region') {tail : List Char}
    (htail : Ends region' tail) (hspace : ' ' ∉ tail.head?) (before : Nat) {c : Cursor}
    {l : Lexeme} (h : read region c = .ok (some l)) :
    read region' (c.within before tail) = .ok (some (l.within before tail)) :=
  read_of_lexes ((read_eq_some_iff.mp h).within hr htail hspace before)

/-- After a text without a token, the first token is that of what goes on. -/
theorem read_within_none {region region' : Region} {tail : List Char} (before : Nat) {c : Cursor}
    (h : read region c = .ok none) :
    read region' (c.within before tail) =
      read region' ⟨c.position + c.rest.length + before, tail⟩ := by
  obtain ⟨p, cs⟩ := c
  have hcs := read_eq_none_iff.mp h
  clear h
  induction cs generalizing p with
  | nil => rfl
  | cons d cs ih =>
      obtain rfl := hcs d (by simp)
      have := ih (p + 1) (fun c hc => hcs c (by simp [hc]))
      rw [Cursor.within_mk] at this ⊢
      rw [List.cons_append, read_space, Nat.add_right_comm, this, List.length_cons]
      simp only [Nat.add_assoc, Nat.add_comm 1]

end Token

end ScimQuery
