import ScimQuery.Proofs.Filter.Completion
import ScimQuery.Proofs.Filter.Delimiters
import ScimQuery.Proofs.Filter.Shift
import ScimQuery.Proofs.Text.Atoms

/-!
# Filter — the atoms of a filter

What a reader takes in is a matter of the atoms of the text (`ScimQuery.Proofs.Text.Atoms`) and not
of the spaces around them.  A token is one atom; a comparison value is blanks and one atom
(`Value.MadeOf`); a phrase is the atoms of its tokens and of its value (`Phrase.MadeOf`).  Each is
told in two directions: what is read has such atoms, and where the atoms are such, it is read.

* `Token.read_atoms`, `Token.read_of_atoms`: the tokens.
* `Phrase.readValue_atoms`, `Phrase.readValue_of_atoms`: the comparison values.
* `Phrase.Reads.madeOf`, `Phrase.MadeOf.reads`: the phrases.

Where a word ends is told by what comes next: a closing bracket ends a word in a value filter only,
and a value may end in front of some characters that no word ends in front of.  So the directions
need that a phrase may come next (`Phrase.StartsWith`, `Phrase.Before`).
-/

namespace ScimQuery

open Text (Atom Cursor EndsWord First StringBody atoms exists_first isKeyword isSolid isWordChar)

/-! ### Characters -/

theorem isSolid_of_isWordChar {c : Char} (h : isWordChar c = true) : isSolid c = true :=
  Text.isSolid_of_class (by decide +kernel) h

theorem Text.atoms_pastSpace (c : Cursor) : atoms c.pastSpace.rest = atoms c.rest := by
  unfold Cursor.pastSpace
  split
  · exact (atoms_space _).symm
  · rfl

/-! ### Tokens -/

namespace Token

/-- The atom of a token. -/
def atom : Token → Atom
  | .openParen => .mark '('
  | .closeParen => .mark ')'
  | .closeBracket => .mark ']'
  | .word w => .word w
  | .valuePath w => .opened w

variable {region : Region} {c : Cursor} {w s : List Char} {as : List Atom} {t : Token}

theorem Ends.endsWord (h : Ends region s) : EndsWord s := by
  intro d hd
  rcases h d hd with rfl | hd
  · simp
  · obtain ⟨t, ht⟩ := Option.isSome_iff_exists.mp hd
    rcases ofDelimiter?_cases ht with ⟨rfl, -⟩ | ⟨rfl, -⟩ | ⟨rfl, -, -⟩ <;> simp

/-- **A token is the first atom of the text.** -/
theorem read_atoms {l : Lexeme} (h : read region c = .ok (some l)) :
    atoms c.rest = l.token.atom :: atoms l.next.rest := by
  have hlexes := read_eq_some_iff.mp h
  clear h
  induction hlexes with
  | space _ ih => exact (Text.atoms_space _).trans ih
  | word hne hw hs =>
      rw [Text.atoms_pastSpace]
      exact Text.atoms_word hne (fun c hc => isSolid_of_isWordChar (hw c hc)) hs.endsWord
  | valuePath hw => exact Text.atoms_opened (fun c hc => isSolid_of_isWordChar (hw c hc)) _
  | delimiter ht =>
      rcases ofDelimiter?_cases ht with ⟨rfl, rfl⟩ | ⟨rfl, rfl⟩ | ⟨rfl, rfl, -⟩ <;>
        exact Text.atoms_mark (by simp) _

theorem atoms_of_read_none (h : read region c = .ok none) : atoms c.rest = [] := by
  rw [List.eq_replicate_of_mem (read_eq_none_iff.mp h), ← List.append_nil (List.replicate _ _),
    Text.atoms_spaces]
  rfl

theorem read_none_of_atoms (h : atoms c.rest = []) : read region c = .ok none :=
  read_eq_none_iff.mpr (Text.eq_space_of_atoms h)

/-- The token may stand in front of the atoms: a closing bracket is one in a value filter only, and
elsewhere none ends a word. -/
def Allowed (region : Region) (as : List Atom) : Token → Prop
  | .closeBracket => region = .valueFilter
  | .word _ => Atom.mark ']' ∈ as.head? → region = .valueFilter
  | _ => True

theorem allowed_word (h : Atom.mark ']' ∉ as.head?) : Allowed region as (.word w) :=
  fun hmark => absurd hmark h

/-- **The first atom of a text is its token.** -/
theorem read_of_atoms (ht : t.Spelled) (hallowed : t.Allowed region as)
    (h : atoms c.rest = t.atom :: as) :
    ∃ k next, read region c = .ok (some ⟨t, k, next⟩) ∧ atoms next.rest = as := by
  obtain ⟨p, s⟩ := c
  obtain ⟨n, s, r, rfl, hfirst, rfl⟩ := exists_first h
  rw [read_replicate]
  cases t with
  | word w =>
      cases hfirst with
      | word _ _ hends =>
          have hr : Ends region r := by
            intro d hd
            obtain ⟨r, rfl⟩ := List.head?_eq_some_iff.mp hd
            have hmem := hends d rfl
            simp only [List.mem_cons, List.not_mem_nil, or_false] at hmem
            rcases hmem with rfl | rfl | rfl | rfl
            · exact .inl rfl
            · exact .inr rfl
            · exact .inr rfl
            · have hregion : region = .valueFilter := by
                refine hallowed ?_
                rw [Text.atoms_mark (by simp)]
                rfl
              subst hregion
              exact .inr rfl
          exact ⟨_, _, read_word _ ht.1 ht.2 hr, Text.atoms_pastSpace _⟩
  | valuePath w =>
      cases hfirst with
      | opened _ => exact ⟨_, _, read_of_lexes (.valuePath ht), rfl⟩
  | openParen =>
      cases hfirst with
      | mark => exact ⟨_, _, read_of_lexes (.delimiter rfl), rfl⟩
  | closeParen =>
      cases hfirst with
      | mark => exact ⟨_, _, read_of_lexes (.delimiter rfl), rfl⟩
  | closeBracket =>
      cases hfirst with
      | mark =>
          have hregion : region = .valueFilter := hallowed
          subst hregion
          exact ⟨_, _, read_of_lexes (.delimiter rfl), rfl⟩

end Token

/-! ### Comparison values -/

/-- The atoms that may come next where an operand is due, and where none is. -/
def Phrase.StartsWith (region : Region) : Bool → Atom → Prop
  | true, .word _ => True
  | true, .opened _ => True
  | true, .mark c => c = '('
  | false, .word w => ∃ j : Junction, isKeyword w j.keyword = true
  | false, .mark c => c = ')' ∨ c = ']' ∧ region = .valueFilter
  | _, _ => False

/-- What a comparison value is made of: blanks, and the text of the value as a word or as a
string. -/
inductive Value.MadeOf (v : Value) : List Atom → Prop where
  | blank {c : Char} {as : List Atom} : Json.isSpace c = true → c ≠ ' ' → MadeOf v as →
      MadeOf v (.blank c :: as)
  | word {w : List Char} : (∀ c ∈ w, isSolid c = true) → Literal.judge w = .ok (v, w) →
      MadeOf v [.word w]
  | quoted {body : List Char} : StringBody body →
      Literal.judge ('"' :: body ++ ['"']) = .ok (v, '"' :: body ++ ['"']) →
        MadeOf v [.quoted ('"' :: body ++ ['"'])]

namespace Phrase

variable {region : Region} {c after : Cursor} {v : Value} {s : List Char} {as bs : List Atom}

section

variable {d : Char} {cs q : List Char}

/-- A value that has characters of a word only does not show its own end. -/
theorem bare_of_solid (hsolid : ∀ e ∈ d :: cs, isSolid e = true)
    (hread : Json.readValue (d :: cs) = .ok (v.toJson, [])) : Literal.isDelimited d = false := by
  by_contra hd
  obtain rfl := Literal.eq_quote_of_delimited (by simpa using hd) hread
  cases hsolid '"' (by simp)

theorem not_isEnd_of_solid (hsolid : ∀ e ∈ d :: cs, isSolid e = true) :
    ∀ e ∈ d :: cs, (!Literal.isEnd e) = true := by
  intro e he
  by_contra hend
  have hmem := Literal.isEnd_iff_mem.mp (by simpa using hend)
  have hloose := (Text.not_isSolid (c := e) (by simp at hmem ⊢; tauto)).1
  rw [hsolid e he] at hloose
  cases hloose

/-- Such a value is what is read as JSON, in front of a character that ends a value. -/
theorem extent_of_solid (hsolid : ∀ e ∈ d :: cs, isSolid e = true)
    (hbare : Literal.isDelimited d = false) (hq : ∀ e ∈ q.head?, Literal.isEnd e = true) :
    Literal.extent (d :: cs ++ q) = d :: cs := by
  rw [List.cons_append, Literal.extent_bare hbare, ← List.cons_append,
    Text.takeWhile_run (not_isEnd_of_solid hsolid) (by simpa using hq)]

/-- Such a value ends in front of a character that shows its end. -/
theorem boundary_of_judge (hsolid : ∀ e ∈ d :: cs, isSolid e = true)
    (hbare : Literal.isDelimited d = false)
    (h : Literal.judge (Literal.extent (d :: cs ++ q)) = .ok (v, d :: cs)) :
    ∀ e ∈ q.head?, Literal.isEnd e = true ∨ Literal.isBoundary e = true := by
  obtain ⟨rest, hrest, -, hend, -⟩ := Literal.judge_eq_ok_iff.mp h
  rw [List.cons_append, Literal.extent_bare hbare, ← List.cons_append,
    List.takeWhile_append_of_pos (not_isEnd_of_solid hsolid)] at hrest
  obtain rfl := List.append_cancel_left hrest
  have hbounded := hend.resolve_left (by simp [hbare])
  intro e he
  obtain ⟨q, rfl⟩ := List.head?_eq_some_iff.mp he
  cases hclosing : Literal.isEnd e with
  | true => exact .inl rfl
  | false => exact .inr (hbounded e (by simp [hclosing]))

end

/-- The first letter of a junction does not end a value. -/
theorem not_isBoundary_of_keyword {e : Char} {w : List Char} {j : Junction}
    (h : isKeyword (e :: w) j.keyword = true) : ¬Literal.isBoundary e = true := by
  have hlower : Text.lower (e :: w) = Text.lower j.keyword.toList := eq_of_beq h
  have hletter : e.toLower = 'a' ∨ e.toLower = 'o' := by
    cases j with
    | and => exact .inl (List.cons.inj hlower).1
    | or => exact .inr (List.cons.inj hlower).1
  intro hboundary
  simp only [Literal.isBoundary, Json.isSpace, Bool.or_eq_true, beq_iff_eq] at hboundary
  rcases hboundary with
    ((((((((((rfl | rfl) | rfl) | rfl) | rfl) | rfl) | rfl) | rfl) | rfl) | rfl) | rfl)
  all_goals exact absurd hletter (by decide)

/-- In front of a phrase that may come next, such a value ends in front of a character that ends a
word. -/
theorem endsWord_of_boundary {q : List Char}
    (hq : ∀ e ∈ q.head?, Literal.isEnd e = true ∨ Literal.isBoundary e = true)
    (h : ∀ a ∈ (atoms q).head?, StartsWith region false a) : EndsWord q := by
  intro e he
  obtain ⟨q, rfl⟩ := List.head?_eq_some_iff.mp he
  rcases hq e rfl with hend | hboundary
  · have hmem := Literal.isEnd_iff_mem.mp hend
    simp at hmem ⊢
    tauto
  by_cases hspace : e = ' '
  · simp [hspace]
  rcases Text.first_cases (e :: q) with hspaces | ⟨n, t, a, r, ht, hfirst, hatoms⟩
  · exact absurd (hspaces e (by simp)) hspace
  obtain rfl : n = 0 := by
    cases n with
    | zero => rfl
    | succ n => exact absurd (List.cons.inj ht).1 hspace
  obtain rfl : e :: q = t := ht
  have hstarts := h a (by rw [hatoms]; rfl)
  generalize ht : e :: q = t at hfirst
  cases hfirst with
  | @word w _ hne _ _ =>
      obtain ⟨e', w, rfl⟩ := List.exists_cons_of_ne_nil hne
      obtain rfl : e = e' := (List.cons.inj ht).1
      obtain ⟨j, hj⟩ := hstarts
      exact absurd hboundary (not_isBoundary_of_keyword hj)
  | mark =>
      cases ht
      rcases hstarts with rfl | ⟨rfl, -⟩ <;> simp
  | cut => exact hstarts.elim
  | opened => exact hstarts.elim
  | blank => exact hstarts.elim
  | quoted => exact hstarts.elim

/-- Blanks in front of a comparison value belong to it. -/
theorem madeOf_blanks {w : List Char} (hw : ∀ e ∈ w, Json.isSpace e = true) (has : v.MadeOf as)
    (hs : atoms s = as ++ bs) : ∃ as', v.MadeOf as' ∧ atoms (w ++ s) = as' ++ bs := by
  induction w with
  | nil => exact ⟨as, has, hs⟩
  | cons e w ih =>
      rw [List.forall_mem_cons] at hw
      obtain ⟨as', has', hatoms⟩ := ih hw.2
      by_cases hspace : e = ' '
      · subst hspace
        exact ⟨as', has', (Text.atoms_space _).trans hatoms⟩
      · refine ⟨.blank e :: as', .blank hw.1 hspace has', ?_⟩
        rw [List.cons_append, Text.atoms_blank hw.1 hspace, hatoms]
        rfl

/-- **The atoms of a comparison value**, in front of a phrase that may come next. -/
theorem readValue_atoms (h : readValue c = .ok (v, after))
    (hafter : ∀ a ∈ (atoms after.rest).head?, StartsWith region false a) :
    ∃ as, v.MadeOf as ∧ atoms c.rest = as ++ atoms after.rest := by
  obtain ⟨w, d, cs, q, hrest, hw, -, hread, hjudge, rfl⟩ := exists_of_readValue h
  rw [Text.atoms_pastSpace] at hafter ⊢
  rw [hrest, List.append_assoc]
  have hself := hjudge [] (.inr (by simp))
  rcases Json.readValue_solid hread with ⟨body, hbody, hquoted⟩ | hsolid
  · rw [hquoted] at hself ⊢
    rw [List.append_nil, List.cons_append, Literal.extent_delimited rfl] at hself
    refine madeOf_blanks hw (.quoted hbody hself) ?_
    rw [List.append_assoc]
    exact Text.atoms_quoted hbody q
  · have hbare := bare_of_solid hsolid hread
    have hends := endsWord_of_boundary (boundary_of_judge hsolid hbare (hjudge q (.inl rfl))) hafter
    rw [extent_of_solid hsolid hbare (by simp)] at hself
    exact madeOf_blanks hw (.word hsolid hself) (Text.atoms_word (by simp) hsolid hends)

/-- Behind an operand no parenthesis is opened, so what ends a word ends a value. -/
theorem isEnd_of_endsWord {q : List Char} (hends : EndsWord q)
    (h : ∀ a ∈ (atoms q).head?, StartsWith region false a) :
    ∀ e ∈ q.head?, Literal.isEnd e = true := by
  intro e he
  have hmem := hends e he
  obtain ⟨q, rfl⟩ := List.head?_eq_some_iff.mp he
  simp only [List.mem_cons, List.not_mem_nil, or_false] at hmem
  rcases hmem with rfl | rfl | rfl | rfl
  · rfl
  · rw [Text.atoms_mark (by simp)] at h
    rcases h _ rfl with h | ⟨h, -⟩ <;> cases h
  · rfl
  · rfl

/-- What is made of the atoms of a comparison value is a text of it. -/
theorem exists_of_madeOf (has : v.MadeOf as) (h : atoms s = as ++ bs)
    (hbs : ∀ a ∈ bs.head?, StartsWith region false a) :
    ∃ w d cs q, s = (w ++ d :: cs) ++ q ∧ (∀ e ∈ w, Json.isSpace e = true) ∧
      Json.isSpace d = false ∧
      Literal.judge (Literal.extent (d :: cs ++ q)) = .ok (v, d :: cs) ∧ atoms q = bs := by
  induction has generalizing s with
  | @blank c as hblank hspace _ ih =>
      obtain ⟨n, s, r, rfl, hfirst, hr⟩ := exists_first h
      cases hfirst with
      | blank =>
          obtain ⟨w, d, cs, q, rfl, hw, hd, hjudge, hq⟩ := ih hr
          have hall : ∀ e ∈ c :: w, Json.isSpace e = true := List.forall_mem_cons.mpr ⟨hblank, hw⟩
          refine ⟨List.replicate n ' ' ++ c :: w, d, cs, q, by simp, ?_, hd, hjudge, hq⟩
          exact List.forall_mem_append.mpr ⟨Json.isSpace_replicate n, hall⟩
  | @word lit hsolid hjudge =>
      obtain ⟨n, s, r, rfl, hfirst, rfl⟩ := exists_first h
      cases hfirst with
      | word hne _ hends =>
          obtain ⟨d, cs, rfl⟩ := List.exists_cons_of_ne_nil hne
          have hbare : Literal.isDelimited d = false := by
            obtain ⟨rest, hrest, hread, -⟩ := Literal.judge_eq_ok_iff.mp hjudge
            obtain rfl := List.append_cancel_left (hrest.symm.trans (List.append_nil _).symm)
            exact bare_of_solid hsolid hread
          have hd : Json.isSpace d = false := Text.isSpace_of_isSolid (hsolid d (by simp))
          refine ⟨List.replicate n ' ', d, cs, r, by simp, Json.isSpace_replicate n, hd, ?_, rfl⟩
          rw [extent_of_solid hsolid hbare (isEnd_of_endsWord hends hbs), hjudge]
  | @quoted body hbody hjudge =>
      obtain ⟨n, s, r, rfl, hfirst, rfl⟩ := exists_first h
      cases hfirst with
      | quoted =>
          have hself : Literal.judge ('"' :: body ++ ['"'] ++ []) =
              .ok (v, '"' :: body ++ ['"']) := by
            rw [List.append_nil, hjudge]
          have hshown := Literal.judge_of_mayEnd hself (.inl ⟨'"', rfl, rfl⟩ : Literal.MayEnd _ r)
          exact ⟨List.replicate n ' ', '"', body ++ ['"'], r, by simp, Json.isSpace_replicate n, rfl,
            hshown, rfl⟩

theorem readValue_of_atoms (has : v.MadeOf as) (h : atoms c.rest = as ++ bs)
    (hbs : ∀ a ∈ bs.head?, StartsWith region false a) :
    ∃ after, readValue c = .ok (v, after) ∧ atoms after.rest = bs := by
  obtain ⟨p, s⟩ := c
  obtain ⟨w, d, cs, q, rfl, hw, hd, hjudge, rfl⟩ := exists_of_madeOf has h hbs
  exact ⟨_, readValue_spelled hw hd hjudge, Text.atoms_pastSpace _⟩

/-! ### Phrases -/

/-- The phrase, wherever it stands: its place is 0. -/
def unplaced : Phrase → Phrase
  | .openValue path _ => .openValue path 0
  | .closeGroup _ => .closeGroup 0
  | phrase => phrase

/-- What a phrase is made of, where an operand is due or not. -/
inductive MadeOf (region : Region) : Bool → Phrase → List Atom → Prop where
  | openGroup : MadeOf region true (.openGroup false) [.mark '(']
  | openNegated {w : List Char} : (Token.word w).Spelled → isKeyword w "not" = true →
      MadeOf region true (.openGroup true) [.word w, .mark '(']
  | present {w o : List Char} {path : Path} : (Token.word w).Spelled →
      isKeyword w "not" = false → Path.ofWord w = .ok path → (Token.word o).Spelled →
        isKeyword o Operator.presentKeyword = true →
          MadeOf region true (.operand (.present path)) [.word w, .word o]
  | compare {w o : List Char} {path : Path} {op : Operator} {v : Value} {as : List Atom} :
      (Token.word w).Spelled → isKeyword w "not" = false → Path.ofWord w = .ok path →
        (Token.word o).Spelled → isKeyword o Operator.presentKeyword = false →
          Operator.ofKeyword? o = some op → v.MadeOf as →
            MadeOf region true (.operand (.compare op path v)) (.word w :: .word o :: as)
  | openValue {w : List Char} {path : Path} : (Token.valuePath w).Spelled → w ≠ [] →
      Path.ofWord w = .ok path → MadeOf region true (.openValue path 0) [.opened w]
  | join {w : List Char} {j : Junction} : (Token.word w).Spelled →
      isKeyword w j.keyword = true → MadeOf region false (.join j) [.word w]
  | closeGroup : MadeOf region false (.closeGroup 0) [.mark ')']
  | closeValue : region = .valueFilter → MadeOf region false .closeValue [.mark ']']

/-- What comes next behind a phrase that ends in a word. -/
def Before (region : Region) : Phrase → List Atom → Prop
  | .operand _, as => ∀ a ∈ as.head?, StartsWith region false a
  | .join _, as => ∀ a ∈ as.head?, StartsWith region true a
  | _, _ => True

variable {phrase : Phrase} {due : Bool}

theorem readPath_eq_ok_iff {w : List Char} {k : Nat} {path : Path} :
    readPath w k = .ok path ↔ Path.ofWord w = .ok path := by
  unfold readPath
  cases Path.ofWord w <;> simp

/-- A phrase starts with an atom of its kind. -/
theorem Reads.startsWith (h : Reads region due c phrase after) :
    ∃ a as, atoms c.rest = a :: as ∧ StartsWith region due a := by
  cases h with
  | openGroup htoken => exact ⟨_, _, Token.read_atoms htoken, rfl⟩
  | openNegated htoken => exact ⟨_, _, Token.read_atoms htoken, trivial⟩
  | operand htoken => exact ⟨_, _, Token.read_atoms htoken, trivial⟩
  | openValue htoken => exact ⟨_, _, Token.read_atoms htoken, trivial⟩
  | join htoken hw => exact ⟨_, _, Token.read_atoms htoken, _, hw⟩
  | closeGroup htoken => exact ⟨_, _, Token.read_atoms htoken, .inl rfl⟩
  | closeValue htoken =>
      exact ⟨_, _, Token.read_atoms htoken, .inr ⟨rfl, Token.read_closeBracket htoken⟩⟩

/-- What a phrase is made of starts with an atom of its kind. -/
theorem MadeOf.startsWith (h : MadeOf region due phrase as) :
    ∃ a as', as = a :: as' ∧ StartsWith region due a := by
  cases h with
  | openGroup => exact ⟨_, _, rfl, rfl⟩
  | openNegated => exact ⟨_, _, rfl, trivial⟩
  | present => exact ⟨_, _, rfl, trivial⟩
  | compare => exact ⟨_, _, rfl, trivial⟩
  | openValue => exact ⟨_, _, rfl, trivial⟩
  | @join w j _ hw => exact ⟨_, _, rfl, j, hw⟩
  | closeGroup => exact ⟨_, _, rfl, .inl rfl⟩
  | closeValue hregion => exact ⟨_, _, rfl, .inr ⟨rfl, hregion⟩⟩

/-- **The atoms of a phrase** that is read in front of one that may come next. -/
theorem Reads.madeOf (h : Reads region due c phrase after)
    (hafter : phrase.Before region (atoms after.rest)) :
    ∃ as, MadeOf region due phrase.unplaced as ∧ atoms c.rest = as ++ atoms after.rest := by
  cases h with
  | openGroup htoken => exact ⟨_, .openGroup, Token.read_atoms htoken⟩
  | openNegated htoken hnot hparen =>
      refine ⟨_, .openNegated (Token.read_spelled htoken) hnot, ?_⟩
      rw [Token.read_atoms htoken, Token.read_atoms hparen]
      rfl
  | operand htoken hnot hcondition =>
      have hw := Token.read_spelled htoken
      cases readCondition_eq_ok_iff.mp hcondition with
      | present hpath hop hpresent =>
          refine ⟨_, .present hw hnot (readPath_eq_ok_iff.mp hpath) (Token.read_spelled hop)
            hpresent, ?_⟩
          rw [Token.read_atoms htoken, Token.read_atoms hop]
          rfl
      | compare hpath hop hpresent hkeyword hvalue =>
          obtain ⟨as, hvalue, hatoms⟩ := readValue_atoms hvalue hafter
          refine ⟨_, .compare hw hnot (readPath_eq_ok_iff.mp hpath) (Token.read_spelled hop)
            hpresent hkeyword hvalue, ?_⟩
          rw [Token.read_atoms htoken, Token.read_atoms hop, hatoms]
          rfl
  | openValue htoken hne hpath =>
      exact ⟨_, .openValue (Token.read_spelled htoken) hne (readPath_eq_ok_iff.mp hpath),
        Token.read_atoms htoken⟩
  | join htoken hw => exact ⟨_, .join (Token.read_spelled htoken) hw, Token.read_atoms htoken⟩
  | closeGroup htoken => exact ⟨_, .closeGroup, Token.read_atoms htoken⟩
  | closeValue htoken =>
      exact ⟨_, .closeValue (Token.read_closeBracket htoken), Token.read_atoms htoken⟩

/-- A closing bracket does not come next behind a comparison operator. -/
theorem not_mem_head_madeOf (h : v.MadeOf as) (bs : List Atom) :
    Atom.mark ']' ∉ (as ++ bs).head? := by
  cases h <;> simp

/-- Where a phrase may come next, a closing bracket does in a value filter only. -/
theorem allowed_word {w : List Char} (h : ∀ a ∈ bs.head?, StartsWith region due a) :
    Token.Allowed region bs (.word w) := by
  intro hmark
  have hstarts := h _ hmark
  cases due with
  | true => cases hstarts
  | false => exact hstarts.elim (fun h => nomatch h) And.right

/-- **What a phrase is made of is read as the phrase**, whatever its text is. -/
theorem MadeOf.reads (h : MadeOf region due phrase as) (hbs : phrase.Before region bs)
    (hc : atoms c.rest = as ++ bs) :
    ∃ phrase' after, Reads region due c phrase' after ∧ phrase'.unplaced = phrase ∧
      atoms after.rest = bs := by
  cases h with
  | openGroup =>
      obtain ⟨k, next, htoken, hnext⟩ := Token.read_of_atoms (t := .openParen) trivial trivial hc
      exact ⟨_, next, .openGroup htoken, rfl, hnext⟩
  | openNegated hw hnot =>
      obtain ⟨k, next, htoken, hnext⟩ := Token.read_of_atoms hw (Token.allowed_word (by simp)) hc
      obtain ⟨m, after, hparen, hafter⟩ :=
        Token.read_of_atoms (t := .openParen) trivial trivial hnext
      exact ⟨_, after, .openNegated htoken hnot hparen, rfl, hafter⟩
  | present hw hnot hpath ho hpresent =>
      obtain ⟨k, next, htoken, hnext⟩ := Token.read_of_atoms hw (Token.allowed_word (by simp)) hc
      obtain ⟨m, after, hop, hafter⟩ := Token.read_of_atoms ho (allowed_word hbs) hnext
      have hcondition : ReadsCondition region _ k next _ after :=
        .present (readPath_eq_ok_iff.mpr hpath) hop hpresent
      exact ⟨_, after, .operand htoken hnot (readCondition_eq_ok_iff.mpr hcondition), rfl, hafter⟩
  | compare hw hnot hpath ho hpresent hkeyword hvalue =>
      obtain ⟨k, next, htoken, hnext⟩ := Token.read_of_atoms hw (Token.allowed_word (by simp)) hc
      obtain ⟨m, inner, hop, hinner⟩ :=
        Token.read_of_atoms ho (Token.allowed_word (not_mem_head_madeOf hvalue bs)) hnext
      obtain ⟨after, hread, hafter⟩ := readValue_of_atoms hvalue hinner hbs
      have hcondition : ReadsCondition region _ k next _ after :=
        .compare (readPath_eq_ok_iff.mpr hpath) hop hpresent hkeyword hread
      exact ⟨_, after, .operand htoken hnot (readCondition_eq_ok_iff.mpr hcondition), rfl, hafter⟩
  | openValue hw hne hpath =>
      obtain ⟨k, next, htoken, hnext⟩ := Token.read_of_atoms hw trivial hc
      exact ⟨_, next, .openValue htoken hne (readPath_eq_ok_iff.mpr hpath), rfl, hnext⟩
  | join hw hkeyword =>
      obtain ⟨k, next, htoken, hnext⟩ := Token.read_of_atoms hw (allowed_word hbs) hc
      exact ⟨_, next, .join htoken hkeyword, rfl, hnext⟩
  | closeGroup =>
      obtain ⟨k, next, htoken, hnext⟩ := Token.read_of_atoms (t := .closeParen) trivial trivial hc
      exact ⟨_, next, .closeGroup htoken, rfl, hnext⟩
  | closeValue hregion =>
      obtain ⟨k, next, htoken, hnext⟩ :=
        Token.read_of_atoms (t := .closeBracket) trivial hregion hc
      exact ⟨_, next, .closeValue htoken, rfl, hnext⟩

end Phrase

end ScimQuery
