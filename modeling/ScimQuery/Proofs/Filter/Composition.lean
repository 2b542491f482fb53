import ScimQuery.Proofs.Filter.WellFormed
import ScimQuery.Proofs.Filter.Within
import ScimQuery.Proofs.Path.Readable

/-!
# Filter — filters put together from texts

A text that spells a filter keeps its meaning between delimiters: in parentheses, behind `not`,
joined with another one, or in the brackets of a value filter, it is read as the filter it spells
by itself, and nothing in it reaches what is around it (`parseFilter_composed`).  The limit on
nesting has to allow the one level that the delimiters add.

`Spells` is what is used of a text by itself, and `Spells.within` what it becomes in front of a
closing character.
-/

namespace ScimQuery

open Text (Cursor isKeyword)

/-- The path with its last attribute narrowed to the values that a filter accepts. -/
def Path.narrowLast (f : Filter) : Path → Path
  | .root urn => .root urn
  | .sub parent name => .subWhere parent name f
  | .subWhere parent name _ => .subWhere parent name f

namespace Descent

/-- The text without blanks around it spells the filter, if groups and value filters may nest `d`
deep. -/
def Spells (d : Nat) (cs : List Char) (f : Filter) : Prop :=
  ∃ e he, sequence { maxDepth := d } .filter 0 .or ⟨0, cs⟩ = some (f, ⟨e, he⟩) ∧
    token .filter e = some none

theorem parse_eq_some_iff {d : Nat} {text : String} {f : Filter}
    (htrim : Text.Trimmed text.toList) :
    parse { maxDepth := d } text = some f ↔ Spells d text.toList f := by
  unfold parse
  simp only [openText_of_trimmed htrim]
  constructor
  · intro h
    split at h
    · cases h
    · rename_i g e he hseq
      split at h
      · rename_i htoken
        cases h
        exact ⟨e, he, hseq, htoken⟩
      · cases h
  · rintro ⟨e, he, hseq, htoken⟩
    simp only [hseq, htoken]

theorem parseFilter_iff_spells {d : Nat} {text : String} {f : Filter}
    (htrim : Text.Trimmed text.toList) :
    parseFilter { maxDepth := d } text = .ok f ↔ Spells d text.toList f := by
  rw [← Text.toOption_eq_some_iff, parseFilter_toOption, parse_eq_some_iff htrim]

variable {d k : Nat} {cs rest : List Char} {f g : Filter}

/-! ### In front of a closing character -/

/-- A text that spells a filter, read in front of what closes it. -/
theorem Spells.within (h : Spells d cs f) {region : Region} {shut : Char} {close : Token}
    (hshut : Shuts region (shut :: rest)) (hclose : Token.ofDelimiter? region shut = some close)
    (k : Nat) :
    ∃ e he m, sequence { maxDepth := d + 1 } region 1 .or
        ⟨k, cs ++ shut :: rest⟩ = some (f, ⟨e, he⟩) ∧
      Token.read region e = .ok (some ⟨close, m, ⟨m + 1, rest⟩⟩) := by
  obtain ⟨e, he, hseq, hend⟩ := h
  have hfits : Fits { maxDepth := d } { maxDepth := d + 1 }
      .filter region 0 1 (shut :: rest) := ⟨by cases region <;> trivial, rfl, hshut⟩
  obtain ⟨he', hseq'⟩ := sequence_within k hfits hseq
  have hplace : (⟨k, cs ++ shut :: rest⟩ : Cursor) =
      (⟨0, cs⟩ : Cursor).within k (shut :: rest) := by
    rw [Cursor.within_mk, Nat.zero_add]
  -- the text had ended here, and now it is closed
  have hread : Token.read region (e.within k (shut :: rest)) = _ :=
    Token.read_within_none k (read_of_token_end hend)
  rw [hplace]
  exact ⟨_, _, _, hseq', hread.trans (Token.read_of_lexes (.delimiter hclose))⟩

/-- Behind the opening delimiter, the filter is read up to the closing one. -/
theorem Spells.enclosed (h : Spells d cs f) {region : Region} {shut : Char} {close : Token}
    (hshut : Shuts region (shut :: rest)) (hclose : Token.ofDelimiter? region shut = some close)
    (k : Nat) :
    ∃ m hm, enclosed { maxDepth := d + 1 } region close 0
      ⟨k, cs ++ shut :: rest⟩ = some (f, ⟨⟨m, rest⟩, hm⟩) := by
  obtain ⟨e, he, m, hseq, hread⟩ := h.within hshut hclose k
  exact ⟨m + 1, enclosed_of_sequence (Nat.not_succ_le_zero d) hseq (token_of_some hread)⟩

/-! ### Terms -/

theorem Spells.term_group (h : Spells d cs f) (k : Nat) (rest : List Char) :
    ∃ m hm, term { maxDepth := d + 1 } .filter 0
      ⟨k, '(' :: (cs ++ ')' :: rest)⟩ = some (f, ⟨⟨m, rest⟩, hm⟩) := by
  have hopen : Token.read .filter ⟨k, '(' :: (cs ++ ')' :: rest)⟩ =
      .ok (some ⟨.openParen, k, ⟨k + 1, cs ++ ')' :: rest⟩⟩) :=
    Token.read_of_lexes (.delimiter rfl)
  obtain ⟨m, hm, henclosed⟩ := h.enclosed (shuts_paren .filter rest) rfl (k + 1)
  exact ⟨m, term_of_group (token_of_some hopen) henclosed⟩

theorem Spells.term_negated (h : Spells d cs f) (k : Nat) (rest : List Char) :
    ∃ m hm, term { maxDepth := d + 1 } .filter 0
      ⟨k, "not".toList ++ ' ' :: '(' :: (cs ++ ')' :: rest)⟩ =
        some (.not f, ⟨⟨m, rest⟩, hm⟩) := by
  obtain ⟨hne, hword⟩ := not_word
  have hnot : Token.read .filter ⟨k, "not".toList ++ ' ' :: '(' :: (cs ++ ')' :: rest)⟩ =
      .ok (some ⟨.word "not".toList, k,
        ⟨k + "not".toList.length + 1, '(' :: (cs ++ ')' :: rest)⟩⟩) :=
    Token.read_spaced k hne hword
  have hopen : Token.read .filter ⟨k + "not".toList.length + 1, '(' :: (cs ++ ')' :: rest)⟩ =
      .ok (some ⟨.openParen, k + "not".toList.length + 1,
        ⟨k + "not".toList.length + 1 + 1, cs ++ ')' :: rest⟩⟩) :=
    Token.read_of_lexes (.delimiter rfl)
  obtain ⟨m, hm, henclosed⟩ := h.enclosed (shuts_paren .filter rest) rfl
    (k + "not".toList.length + 1 + 1)
  exact ⟨m, term_of_negated (token_of_some hnot) (by decide) (token_of_some hopen) henclosed⟩

theorem Spells.term_value (h : Spells d cs f) {p : Path} (hp : p.WellFormed) (k : Nat)
    (rest : List Char) :
    ∃ m hm, term { maxDepth := d + 1 } .filter 0
      ⟨k, p.chars ++ '[' :: (cs ++ ']' :: rest)⟩ = some (.complex p f, ⟨⟨m, rest⟩, hm⟩) := by
  obtain ⟨hne, hword⟩ := hp.chars_word
  have hopen : Token.read .filter ⟨k, p.chars ++ '[' :: (cs ++ ']' :: rest)⟩ =
      .ok (some ⟨.valuePath p.chars, k, ⟨k + p.chars.length + 1, cs ++ ']' :: rest⟩⟩) :=
    Token.read_of_lexes (.valuePath hword)
  have hpath : path p.chars = some p := by
    rw [path, if_neg (by simpa using hne), Path.ofWord_chars hp]
    rfl
  obtain ⟨m, hm, henclosed⟩ := h.enclosed (shuts_bracket rest) rfl (k + p.chars.length + 1)
  exact ⟨m, term_of_value (token_of_some hopen) hpath henclosed⟩

/-! ### Sequences of terms -/

variable {limits : Limits} {region : Region} {depth : Nat} {j : Junction} {c c' : Cursor}

theorem item_and : item limits region depth .and c = term limits region depth c := by
  rw [item]

theorem item_or : item limits region depth .or c = sequence limits region depth .and c := by
  rw [item]

theorem more_nil (j : Junction) (k : Nat) :
    more limits region depth j ⟨k, []⟩ = some ([], ⟨⟨k, []⟩, Nat.le_refl _⟩) := by
  have hend : Token.read region ⟨k, []⟩ = .ok none := Token.read_eq_none_iff.mpr (by simp)
  refine more_of_stops hend ?_
  intro w m next h
  rw [hend] at h
  cases h

/-- A term at the end of the text is a sequence by itself. -/
theorem sequence_of_term {hk : (⟨k, []⟩ : Cursor).rest.length ≤ c.rest.length}
    (h : term limits region depth c = some (f, ⟨⟨k, []⟩, hk⟩)) (j : Junction) :
    sequence limits region depth j c = some (f, ⟨⟨k, []⟩, hk⟩) := by
  have hand : sequence limits region depth .and c = some (f, ⟨⟨k, []⟩, hk⟩) := by
    rw [sequence, item_and, h]
    simp only [more_nil]
    rfl
  cases j with
  | and => exact hand
  | or =>
      rw [sequence, item_or, hand]
      simp only [more_nil]
      rfl

/-- Two terms with a keyword between them, at the end of the text. -/
theorem sequence_of_terms {next : Cursor} {w : List Char} {m : Nat}
    {hc : c'.rest.length ≤ c.rest.length} {hk : (⟨k, []⟩ : Cursor).rest.length ≤ next.rest.length}
    (hf : term limits region depth c = some (f, ⟨c', hc⟩))
    (hread : Token.read region c' = .ok (some ⟨.word w, m, next⟩))
    (hw : isKeyword w j.keyword = true)
    (hg : term limits region depth next = some (g, ⟨⟨k, []⟩, hk⟩)) :
    ∃ hk', sequence limits region depth .or c = some (.join j [f, g], ⟨⟨k, []⟩, hk'⟩) := by
  refine ⟨Nat.zero_le _, ?_⟩
  cases j with
  | and =>
      have hmore : more limits region depth .and c' = some ([g], ⟨⟨k, []⟩, Nat.zero_le _⟩) := by
        have hitem := hg
        rw [← item_and] at hitem
        rw [more]
        simp only [token_of_some hread, if_pos hw, hitem, more_nil]
      have hand : sequence limits region depth .and c =
          some (.and [f, g], ⟨⟨k, []⟩, Nat.zero_le _⟩) := by
        rw [sequence, item_and, hf]
        simp only [hmore]
        rfl
      rw [sequence, item_or, hand]
      simp only [more_nil]
      rfl
  | or =>
      have hstop : Stops region .and c' := by
        intro w' m' next' h
        rw [hread] at h
        cases h
        exact Text.isKeyword_and_or hw
      have hand : sequence limits region depth .and c = some (f, ⟨c', hc⟩) := by
        rw [sequence, item_and, hf]
        simp only [more_of_stops hread hstop]
        rfl
      have hmore : more limits region depth .or c' = some ([g], ⟨⟨k, []⟩, Nat.zero_le _⟩) := by
        have hitem := sequence_of_term hg .and
        rw [← item_or] at hitem
        rw [more]
        simp only [token_of_some hread, if_pos hw, hitem, more_nil]
      rw [sequence, item_or, hand]
      simp only [hmore]
      rfl

theorem Spells.of_term {hk : (⟨k, []⟩ : Cursor).rest.length ≤ cs.length}
    (h : term { maxDepth := d } .filter 0 ⟨0, cs⟩ = some (f, ⟨⟨k, []⟩, hk⟩)) :
    Spells d cs f :=
  ⟨_, _, sequence_of_term h .or, token_of_end (Token.read_eq_none_iff.mpr (by simp))⟩

theorem Spells.of_terms {next : Cursor} {w : List Char} {m : Nat}
    {hc : c'.rest.length ≤ cs.length} {hk : (⟨k, []⟩ : Cursor).rest.length ≤ next.rest.length}
    (hf : term { maxDepth := d } .filter 0 ⟨0, cs⟩ = some (f, ⟨c', hc⟩))
    (hread : Token.read .filter c' = .ok (some ⟨.word w, m, next⟩))
    (hw : isKeyword w j.keyword = true)
    (hg : term { maxDepth := d } .filter 0 next = some (g, ⟨⟨k, []⟩, hk⟩)) :
    Spells d cs (.join j [f, g]) := by
  obtain ⟨hk', hseq⟩ := sequence_of_terms hf hread hw hg
  exact ⟨_, _, hseq, token_of_end (Token.read_eq_none_iff.mpr (by simp))⟩

/-- The same value filter at the end of a path. -/
theorem Spells.readWithin (h : Spells d cs f) (opened k : Nat) :
    ∃ m hm, Filter.readWithin { maxDepth := d + 1 } opened
      ⟨k, cs ++ [']']⟩ = .ok (f, ⟨⟨m, []⟩, hm⟩) := by
  obtain ⟨e, he, m, hseq, hread⟩ := h.within (shuts_bracket []) rfl k
  have hbase : ({ bracket := some opened, depth := 1 } : Level).Base :=
    ⟨Level.opens_nil, fun _ => rfl⟩
  have hclose : Reading.run { maxDepth := d + 1 }
      ⟨({ bracket := some opened, depth := 1 } : Level).push f, []⟩ e = .ok (f, ⟨m + 1, []⟩) :=
    Reading.run_closeValue rfl hread
  have houtcome : Reading.outcome { maxDepth := d + 1 }
      { bracket := some opened, depth := 1 } [] ⟨k, cs ++ [']']⟩ = some (f, ⟨m + 1, []⟩) := by
    rw [Reading.outcome_disjunction [] hbase rfl]
    change (sequence _ .valueFilter 1 .or _).bind _ = _
    rw [hseq]
    simp only [Option.bind_some]
    rw [Reading.outcome, hclose]
    rfl
  refine ⟨m + 1, Nat.zero_le _, ?_⟩
  exact Filter.readWithin_eq_ok_iff.mpr
    ⟨Nat.succ_ne_zero d, Text.toOption_eq_some_iff.mp houtcome⟩

end Descent

/-! ### Whole texts -/

/-- A path that is read from a text without bracket is well-formed, and the text is its own. -/
theorem parsePath_sound {limits : Limits} {text : String} {p : Path}
    (htrim : Text.Trimmed text.toList) (hne : text ≠ "") (hbracket : '[' ∉ text.toList)
    (h : parsePath limits text = .ok p) : p.WellFormed ∧ p.chars = text.toList := by
  obtain ⟨c, hopen, h⟩ := Text.bind_eq_ok_iff.mp h
  obtain ⟨⟨q, after⟩, hread, h⟩ := Text.bind_eq_ok_iff.mp h
  cases h
  obtain rfl := eq_of_openText htrim hopen
  have hstarted : Path.Started none := trivial
  exact Path.readFrom_sound hstarted hbracket (mt String.toList_eq_nil_iff.mp hne) hread

section

variable {d : Nat} {text : String} {f g : Filter} {cs ds : List Char}

theorem parseFilter_group (hf : Descent.Spells d cs f)
    (htext : text.toList = '(' :: (cs ++ [')'])) :
    parseFilter { maxDepth := d + 1 } text = .ok f := by
  have htrim : Text.Trimmed text.toList :=
    htext ▸ Text.trimmed_cons_concat (by decide) (by decide) cs
  obtain ⟨m, hm, hterm⟩ := hf.term_group 0 []
  rw [Descent.parseFilter_iff_spells htrim, htext]
  exact .of_term hterm

theorem parseFilter_negated (hf : Descent.Spells d cs f)
    (htext : text.toList = "not".toList ++ ' ' :: '(' :: (cs ++ [')'])) :
    parseFilter { maxDepth := d + 1 } text = .ok (.not f) := by
  have htrim : Text.Trimmed text.toList :=
    htext ▸ Text.trimmed_cons_concat (by decide) (by decide) ("ot (".toList ++ cs)
  obtain ⟨m, hm, hterm⟩ := hf.term_negated 0 []
  rw [Descent.parseFilter_iff_spells htrim, htext]
  exact .of_term hterm

theorem parseFilter_joined (j : Junction) (hf : Descent.Spells d cs f)
    (hg : Descent.Spells d ds g)
    (htext : text.toList = '(' :: (cs ++ ')' :: ' ' :: (j.keyword.toList ++
      ' ' :: '(' :: (ds ++ [')'])))) :
    parseFilter { maxDepth := d + 1 } text = .ok (.join j [f, g]) := by
  have htrim : Text.Trimmed text.toList := by
    have := Text.trimmed_cons_concat (by decide : Text.isBlank '(' = false)
      (by decide : Text.isBlank ')' = false)
      (cs ++ ')' :: ' ' :: (j.keyword.toList ++ ' ' :: '(' :: ds))
    simpa [htext] using this
  obtain ⟨hne, hword⟩ := j.keyword_word
  obtain ⟨m, hm, hterm⟩ := hf.term_group 0
    (' ' :: (j.keyword.toList ++ ' ' :: '(' :: (ds ++ [')'])))
  have hread : Token.read .filter
      ⟨m, ' ' :: (j.keyword.toList ++ ' ' :: '(' :: (ds ++ [')']))⟩ =
        .ok (some ⟨.word j.keyword.toList, m + 1,
          ⟨m + 1 + j.keyword.toList.length + 1, '(' :: (ds ++ [')'])⟩⟩) :=
    (Token.read_space .filter m _).trans (Token.read_spaced (m + 1) hne hword)
  obtain ⟨n, hn, hterm'⟩ := hg.term_group (m + 1 + j.keyword.toList.length + 1) []
  rw [Descent.parseFilter_iff_spells htrim, htext]
  exact .of_terms hterm hread (beq_self_eq_true _) hterm'

theorem parseFilter_value (hf : Descent.Spells d cs f) {p : Path} (hp : p.WellFormed)
    (htext : text.toList = p.chars ++ '[' :: (cs ++ [']'])) :
    parseFilter { maxDepth := d + 1 } text = .ok (.complex p f) := by
  have htrim : Text.Trimmed text.toList := htext ▸ hp.trimmed_value cs
  obtain ⟨m, hm, hterm⟩ := hf.term_value hp 0 []
  rw [Descent.parseFilter_iff_spells htrim, htext]
  exact .of_term hterm

theorem parsePath_value (hf : Descent.Spells d cs f)
    {p : Path} (hp : p.WellFormed) (hlen : 0 < p.length)
    (htext : text.toList = p.chars ++ '[' :: (cs ++ [']'])) :
    parsePath { maxDepth := d + 1 } text = .ok (p.narrowLast f) := by
  have htrim : Text.Trimmed text.toList := htext ▸ hp.trimmed_value cs
  cases p with
  | root urn => cases hlen
  | subWhere parent name g => exact absurd hp Path.not_wellFormed_subWhere
  | sub parent name =>
      obtain ⟨opened, hopen⟩ := Path.readFrom_chars_bracket
        (Filter.readWithin { maxDepth := d + 1 }) 0 hp.readable (cs ++ [']'])
      obtain ⟨m, hm, hwithin⟩ := hf.readWithin opened (0 + (parent.sub name).chars.length + 1)
      simp only [hwithin, Path.readFrom_end] at hopen
      rw [parsePath, parsePathChars, openText_of_trimmed htrim, htext]
      simp only [bind, Except.bind, hopen]
      rfl

end

/-- **Texts of filters compose**: under a limit that allows one level more, a text in parentheses
spells the filter it spells by itself, behind `not` its negation, and two of them with a keyword
between them the filter that joins the two.  In the brackets behind a path it is the value filter
of the path, in a filter as in a path by itself. -/
theorem parseFilter_composed (d : Nat) (t₁ t₂ : String) (f₁ f₂ : Filter)
    (ht₁ : Text.Trimmed t₁.toList) (ht₂ : Text.Trimmed t₂.toList)
    (hf₁ : parseFilter { maxDepth := d } t₁ = .ok f₁)
    (hf₂ : parseFilter { maxDepth := d } t₂ = .ok f₂) :
    parseFilter { maxDepth := d + 1 } ("(" ++ t₁ ++ ")") = .ok f₁ ∧
      parseFilter { maxDepth := d + 1 } ("not (" ++ t₁ ++ ")") = .ok (.not f₁) ∧
      parseFilter { maxDepth := d + 1 } ("(" ++ t₁ ++ ") and (" ++ t₂ ++ ")") =
        .ok (.and [f₁, f₂]) ∧
      parseFilter { maxDepth := d + 1 } ("(" ++ t₁ ++ ") or (" ++ t₂ ++ ")") =
        .ok (.or [f₁, f₂]) ∧
      ∀ (limits : Limits) (word : String) (p : Path), word ≠ "" → Text.Trimmed word.toList →
        '[' ∉ word.toList → parsePath limits word = .ok p →
          parseFilter { maxDepth := d + 1 } (word ++ "[" ++ t₁ ++ "]") = .ok (.complex p f₁) ∧
          (0 < p.length →
            parsePath { maxDepth := d + 1 } (word ++ "[" ++ t₁ ++ "]") =
              .ok (p.narrowLast f₁)) := by
  rw [Descent.parseFilter_iff_spells ht₁] at hf₁
  rw [Descent.parseFilter_iff_spells ht₂] at hf₂
  refine ⟨?group, ?negated, ?conjunction, ?disjunction, ?value⟩
  case group => exact parseFilter_group hf₁ (by simp)
  case negated => exact parseFilter_negated hf₁ (by simp)
  case conjunction => exact parseFilter_joined .and hf₁ hf₂ (by simp [Junction.keyword])
  case disjunction => exact parseFilter_joined .or hf₁ hf₂ (by simp [Junction.keyword])
  case value =>
    intro limits word p hne htrim hbracket hp
    obtain ⟨hwf, hchars⟩ := parsePath_sound htrim hne hbracket hp
    have htext : (word ++ "[" ++ t₁ ++ "]").toList = p.chars ++ '[' :: (t₁.toList ++ [']']) := by
      simp [hchars]
    exact ⟨parseFilter_value hf₁ hwf htext, fun hlen => parsePath_value hf₁ hwf hlen htext⟩

/-- A text that ends with a bare number, and one with a string that spells delimiters and
keywords. -/
theorem parseFilter_composed_bare : ∃ f₁ f₂ p,
    parseFilter { maxDepth := 0 } "a pr or n eq 3" = .ok f₁ ∧
      parseFilter { maxDepth := 0 } "s co \")] or (\"" = .ok f₂ ∧
      parsePath {} "urn:x:b.c" = .ok p ∧
      parseFilter { maxDepth := 1 } "(a pr or n eq 3) and (s co \")] or (\")" =
        .ok (.and [f₁, f₂]) ∧
      parseFilter { maxDepth := 1 } "urn:x:b.c[a pr or n eq 3]" = .ok (.complex p f₁) ∧
      parsePath { maxDepth := 1 } "urn:x:b.c[a pr or n eq 3]" = .ok (p.narrowLast f₁) := by
  have htext₁ : (parseFilter { maxDepth := 0 } "a pr or n eq 3").toOption.map Filter.text =
      some "(a pr or n eq 3)" := by decide +kernel
  have htext₂ : (parseFilter { maxDepth := 0 } "s co \")] or (\"").toOption.map Filter.text =
      some "s co \")] or (\"" := by decide +kernel
  have hlen : (parsePath {} "urn:x:b.c").toOption.map Path.length = some 2 := by decide +kernel
  obtain ⟨f₁, hf₁, -⟩ := Option.map_eq_some_iff.mp htext₁
  obtain ⟨f₂, hf₂, -⟩ := Option.map_eq_some_iff.mp htext₂
  obtain ⟨p, hp, hlen⟩ := Option.map_eq_some_iff.mp hlen
  rw [Text.toOption_eq_some_iff] at hf₁ hf₂ hp
  obtain ⟨-, -, hand, -, hvalue⟩ := parseFilter_composed 0 "a pr or n eq 3" "s co \")] or (\"" f₁ f₂
    (by decide +kernel) (by decide +kernel) hf₁ hf₂
  obtain ⟨hfilter, hpath⟩ := hvalue {} "urn:x:b.c" p (by decide) (by decide +kernel)
    (by decide +kernel) hp
  exact ⟨f₁, f₂, p, hf₁, hf₂, hp, hand, hfilter, hpath (by omega)⟩

end ScimQuery
