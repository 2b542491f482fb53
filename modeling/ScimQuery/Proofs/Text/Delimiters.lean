import ScimQuery.Proofs.Text.Places

/-!
# Text — delimiters that are open

The delimiters of a text are its parentheses and brackets outside of strings (`delimiters`): a
string starts at a quote and goes on to the next quote that no backslash escapes.  A text may be
scanned for them part by part, if each part ends outside of strings.

* `Passes`: a part of a text that has no delimiter outside of strings, with what it is in at its
  start and at its end.
* `openMost`: the largest number of delimiters of a text that are open at once.  Over two parts of
  a text it is the larger of the two numbers, where the second is counted on from what the first
  leaves open (`mostOpen_append`).
* `Spans`: a part of a text, with the numbers of delimiters that are open before it, after it and at
  most.
-/

namespace ScimQuery.Text

/-- Where in a text its next character stands. -/
inductive Quoting where
  | outside
  /-- In a string. -/
  | inside
  /-- In a string, behind a backslash. -/
  | escaped

/-- Is `c` a parenthesis or a bracket? -/
def isDelimiter (c : Char) : Bool :=
  c == '(' || c == ')' || c == '[' || c == ']'

/-- The delimiters outside of strings, from some place of a text on. -/
def delimitersFrom : Quoting → List Char → List Char
  | _, [] => []
  | .outside, c :: cs =>
    if c = '"' then delimitersFrom .inside cs
    else if isDelimiter c then c :: delimitersFrom .outside cs
    else delimitersFrom .outside cs
  | .inside, c :: cs =>
    if c = '"' then delimitersFrom .outside cs
    else if c = '\\' then delimitersFrom .escaped cs
    else delimitersFrom .inside cs
  | .escaped, _ :: cs => delimitersFrom .inside cs

/-- The delimiters of a text outside of its strings. -/
def delimiters (text : List Char) : List Char :=
  delimitersFrom .outside text

/-- The number of delimiters open after one more, where `n` were open before it. -/
def openAfter (n : Nat) (d : Char) : Nat :=
  if d = '(' ∨ d = '[' then n + 1 else n - 1

/-- The largest number of delimiters open at once, where `n` are open at first. -/
def mostOpen : Nat → List Char → Nat
  | n, [] => n
  | n, d :: ds => max n (mostOpen (openAfter n d) ds)

/-- The largest number of delimiters of a text that are open at once. -/
def openMost (text : List Char) : Nat :=
  mostOpen 0 (delimiters text)

/-! ### Delimiters one after the other -/

theorem le_mostOpen (n : Nat) (ds : List Char) : n ≤ mostOpen n ds := by
  cases ds with
  | nil => exact Nat.le_refl n
  | cons d ds => exact Nat.le_max_left _ _

theorem foldl_openAfter_le_mostOpen (ds : List Char) :
    ∀ n, ds.foldl openAfter n ≤ mostOpen n ds := by
  induction ds with
  | nil => exact Nat.le_refl
  | cons d ds ih =>
      intro n
      exact Nat.le_trans (ih (openAfter n d)) (Nat.le_max_right _ _)

/-- Where a delimiter closes, no more are open than before it. -/
theorem mostOpen_closing {d : Char} {n : Nat} (h : openAfter n d = n - 1) :
    mostOpen n [d] = max n 0 := by
  rw [mostOpen, mostOpen, h]
  omega

theorem mostOpen_append (ds es : List Char) :
    ∀ n, mostOpen n (ds ++ es) = max (mostOpen n ds) (mostOpen (ds.foldl openAfter n) es) := by
  induction ds with
  | nil =>
      intro n
      exact (Nat.max_eq_right (le_mostOpen n es)).symm
  | cons d ds ih =>
      intro n
      rw [List.cons_append, mostOpen, ih, mostOpen, List.foldl_cons, Nat.max_assoc]

/-- The text `s` goes on to `t` over delimiters that lead from `m` open ones to `m'`, where at most
`max m n` are open at once. -/
def Spans (s : List Char) (m n : Nat) (t : List Char) (m' : Nat) : Prop :=
  ∃ ds, delimiters s = ds ++ delimiters t ∧ ds.foldl openAfter m = m' ∧ mostOpen m ds = max m n

theorem Spans.refl {s : List Char} {m n : Nat} (h : n ≤ m) : Spans s m n s m :=
  ⟨[], rfl, rfl, (Nat.max_eq_left h).symm⟩

theorem Spans.congr {s s' t : List Char} {m m' n : Nat} (h : Spans s' m n t m')
    (hs : delimiters s = delimiters s') : Spans s m n t m' := by
  obtain ⟨ds, hds, hrest⟩ := h
  exact ⟨ds, hs.trans hds, hrest⟩

theorem Spans.trans {s t u : List Char} {m m' m'' n n' : Nat} (h : Spans s m n t m')
    (h' : Spans t m' n' u m'') : Spans s m (max n n') u m'' := by
  obtain ⟨ds, hds, rfl, hmost⟩ := h
  obtain ⟨es, hes, rfl, hmost'⟩ := h'
  refine ⟨ds ++ es, by rw [hds, hes, List.append_assoc], List.foldl_append, ?_⟩
  -- what is open between the two parts is counted in the first one already
  have hbetween := foldl_openAfter_le_mostOpen ds m
  rw [mostOpen_append, hmost']
  omega

theorem Spans.mostOpen_eq {s t : List Char} {m m' n : Nat} (h : Spans s m n t m')
    (ht : delimiters t = []) : mostOpen m (delimiters s) = max m n := by
  obtain ⟨ds, hds, -, hmost⟩ := h
  rw [hds, ht, List.append_nil, hmost]

/-! ### Parts without delimiters -/

/-- Neither a delimiter nor a quote. -/
def Plain (c : Char) : Prop :=
  isDelimiter c = false ∧ c ≠ '"'

instance (c : Char) : Decidable (Plain c) :=
  inferInstanceAs (Decidable (_ ∧ _))

/-- The part of a text leads from `q` to `q'` and has no delimiter outside of strings. -/
def Passes (q : Quoting) (w : List Char) (q' : Quoting) : Prop :=
  ∀ s, delimitersFrom q (w ++ s) = delimitersFrom q' s

/-- The part of a text has no delimiter outside of strings, where it starts and ends. -/
abbrev Neutral (w : List Char) : Prop :=
  Passes .outside w .outside

theorem Passes.append {q q' q'' : Quoting} {v w : List Char} (hv : Passes q v q')
    (hw : Passes q' w q'') : Passes q (v ++ w) q'' := by
  intro s
  rw [List.append_assoc, hv, hw]

theorem passes_quote : Passes .outside ['"'] .inside := by
  intro s
  rw [List.singleton_append, delimitersFrom, if_pos rfl]

theorem passes_endQuote : Passes .inside ['"'] .outside := by
  intro s
  rw [List.singleton_append, delimitersFrom, if_pos rfl]

/-- What may stand between the quotes of a string: every quote is behind a backslash, and every
backslash in front of a character. -/
inductive StringBody : List Char → Prop where
  | nil : StringBody []
  | plain {c : Char} {w : List Char} : c ≠ '"' → c ≠ '\\' → StringBody w → StringBody (c :: w)
  | escaped {w : List Char} (c : Char) : StringBody w → StringBody ('\\' :: c :: w)

theorem StringBody.of_forall {w : List Char} (h : ∀ c ∈ w, c ≠ '"' ∧ c ≠ '\\') : StringBody w := by
  induction w with
  | nil => exact .nil
  | cons c w ih =>
      rw [List.forall_mem_cons] at h
      exact .plain h.1.1 h.1.2 (ih h.2)

theorem StringBody.append {v w : List Char} (hv : StringBody v) (hw : StringBody w) :
    StringBody (v ++ w) := by
  induction hv with
  | nil => exact hw
  | plain hquote hbackslash _ ih => exact .plain hquote hbackslash ih
  | escaped c _ ih => exact .escaped c ih

/-- The string goes on behind what may stand in it. -/
theorem StringBody.passes {w : List Char} (h : StringBody w) : Passes .inside w .inside := by
  intro s
  induction h with
  | nil => rfl
  | plain hquote hbackslash _ ih =>
      rw [List.cons_append, delimitersFrom, if_neg hquote, if_neg hbackslash, ih]
  | escaped c _ ih =>
      rw [List.cons_append, List.cons_append, delimitersFrom, if_neg (by decide), if_pos rfl,
        delimitersFrom, ih]

theorem delimiters_cons_plain {c : Char} (h : Plain c) (s : List Char) :
    delimiters (c :: s) = delimiters s := by
  rw [delimiters, delimitersFrom, if_neg h.2, h.1]
  rfl

theorem neutral_of_plain {w : List Char} (h : ∀ c ∈ w, Plain c) : Neutral w := by
  intro s
  induction w with
  | nil => rfl
  | cons c w ih =>
      rw [List.forall_mem_cons] at h
      exact (delimiters_cons_plain h.1 _).trans (ih h.2)

theorem delimiters_cons_delimiter {d : Char} (h : isDelimiter d = true) (s : List Char) :
    delimiters (d :: s) = d :: delimiters s := by
  have hquote : d ≠ '"' := by
    rintro rfl
    cases h
  rw [delimiters, delimitersFrom, if_neg hquote, if_pos h]
  rfl

/-- A class of characters that has neither delimiters nor quotes. -/
theorem plain_of_class {p : Char → Bool}
    (hp : ['(', ')', '[', ']', '"'].all (fun d => !p d) = true) {c : Char} (hc : p c = true) :
    Plain c := by
  have hne : ∀ d ∈ ['(', ')', '[', ']', '"'], c ≠ d := by
    rintro d hd rfl
    have := List.all_eq_true.mp hp c hd
    simp [hc] at this
  simp only [List.forall_mem_cons] at hne
  simp [Plain, isDelimiter, hne]

theorem plain_of_isWordChar {c : Char} (h : isWordChar c = true) : Plain c :=
  plain_of_class (by simp [isWordChar_eq_false]) h

theorem plain_of_isBlank {c : Char} (h : isBlank c = true) : Plain c :=
  plain_of_class (by decide) h

/-! ### Blanks around a text -/

/-- Plain characters at the end of a text do not count, be they in a string that has no end. -/
theorem delimitersFrom_append_plain {w : List Char} (h : ∀ c ∈ w, Plain c) (cs : List Char) :
    ∀ q, delimitersFrom q (cs ++ w) = delimitersFrom q cs := by
  have nothing : ∀ (w : List Char), (∀ c ∈ w, Plain c) → ∀ q, delimitersFrom q w = [] := by
    intro w
    induction w with
    | nil =>
        intro _ q
        cases q <;> rfl
    | cons c w ih =>
        intro h q
        rw [List.forall_mem_cons] at h
        obtain ⟨⟨hdelimiter, hquote⟩, hw⟩ := h
        cases q <;> simp [delimitersFrom, hdelimiter, hquote, ih hw]
  induction cs with
  | nil =>
      intro q
      rw [List.nil_append, nothing w h]
      cases q <;> rfl
  | cons c cs ih =>
      intro q
      cases q <;> simp only [List.cons_append, delimitersFrom, ih]

/-- Where reading starts, all delimiters of the text are still to come. -/
theorem delimiters_of_openText {limits : Limits} {text : List Char} {c : Cursor}
    (h : openText limits text = .ok c) : delimiters c.rest = delimiters text := by
  obtain ⟨rfl, -⟩ := openText_eq_ok h
  obtain ⟨tail, htext, htail⟩ := exists_blank_tail text
  obtain ⟨w, s, hparts, hw, hs⟩ := exists_run isBlank (trimEnd text)
  have hrest : ((Cursor.start (trimEnd text)).skipWhile isBlank).rest = s := by
    rw [Cursor.start, hparts, Cursor.skipWhile_run hw hs]
  have hneutral : Neutral w := neutral_of_plain fun c hc => plain_of_isBlank (hw c hc)
  conv_rhs => rw [htext, delimiters,
    delimitersFrom_append_plain fun c hc => plain_of_isBlank (htail c hc)]
  rw [hrest, hparts]
  exact (hneutral s).symm

end ScimQuery.Text
