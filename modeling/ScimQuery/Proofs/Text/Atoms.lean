import ScimQuery.Proofs.Text.Delimiters

/-!
# Text — atoms

The atoms of a text are what a filter is made of, whatever spaces stand around them: words, words
with an opening bracket behind them, parentheses and closing brackets, and strings (`Atom`).  They
are found by going through the text character by character (`Splitting.step`), so that the atoms of
two parts of a text are those of the first, and those of the second from where the first leaves off
(`Splitting.atoms_append`).

* `atoms_word`, `atoms_opened`, `atoms_mark`, `atoms_blank`, `atoms_quoted`: the text of an atom in
  front of another text.
* `exists_first`: the first atom of a text stands behind spaces and in front of the text of the
  others (`First`).
* `Splitting.atoms_gap`: a space beside a space, a parenthesis or a bracket makes no atoms.
-/

namespace ScimQuery.Text

/-- A part of a text that stands by itself. -/
inductive Atom where
  /-- Characters in front of a space, a parenthesis, a closing bracket or the end of the text. -/
  | word (w : List Char)
  /-- Characters in front of a string or of a blank that is no space. -/
  | cut (w : List Char)
  /-- Characters, perhaps none, and the opening bracket behind them. -/
  | opened (w : List Char)
  /-- A parenthesis or a closing bracket. -/
  | mark (c : Char)
  /-- A blank that is no space. -/
  | blank (c : Char)
  /-- A string with its quotes. -/
  | quoted (e : List Char)
  deriving DecidableEq

/-- Does `c` belong to the characters around it, outside of strings? -/
def isSolid (c : Char) : Bool :=
  !(Json.isSpace c || isDelimiter c || c == '"')

namespace Atom

/-- The characters `w` in front of what ends a word. -/
def ended : List Char → List Atom
  | [] => []
  | c :: w => [.word (c :: w)]

/-- The characters `w` in front of a string or of a blank. -/
def cutOff : List Char → List Atom
  | [] => []
  | c :: w => [.cut (c :: w)]

end Atom

/-- Where a text has been taken apart up to some place: what the next character stands in, and the
characters of an atom that is not complete. -/
structure Splitting where
  quoting : Quoting
  pending : List Char

namespace Splitting

/-- Between two atoms. -/
def between : Splitting :=
  ⟨.outside, []⟩

/-- The atoms that the characters `w` and the character `c` after them complete. -/
def complete (w : List Char) (c : Char) : List Atom :=
  if c = ' ' then Atom.ended w
  else if c = '[' then [.opened w]
  else if Json.isSpace c then Atom.cutOff w ++ [.blank c]
  else Atom.ended w ++ [.mark c]

/-- The atoms that one more character completes, and where this leads. -/
def step : Splitting → Char → List Atom × Splitting
  | ⟨.outside, w⟩, c =>
    if isSolid c then ([], ⟨.outside, w ++ [c]⟩)
    else if c = '"' then (Atom.cutOff w, ⟨.inside, [c]⟩)
    else (complete w c, between)
  | ⟨.inside, e⟩, c =>
    if c = '"' then ([.quoted (e ++ [c])], between)
    else if c = '\\' then ([], ⟨.escaped, e ++ [c]⟩)
    else ([], ⟨.inside, e ++ [c]⟩)
  | ⟨.escaped, e⟩, c => ([], ⟨.inside, e ++ [c]⟩)

/-- The atom that the end of the text completes. -/
def last : Splitting → List Atom
  | ⟨.outside, w⟩ => Atom.ended w
  | ⟨_, e⟩ => [.quoted e]

/-- The atoms that are complete after some characters. -/
def emitted (p : Splitting) : List Char → List Atom
  | [] => []
  | c :: cs => (p.step c).1 ++ (p.step c).2.emitted cs

/-- Where some characters lead. -/
def after (p : Splitting) (cs : List Char) : Splitting :=
  cs.foldl (fun p c => (p.step c).2) p

/-- The atoms of the rest of a text. -/
def atoms (p : Splitting) (cs : List Char) : List Atom :=
  p.emitted cs ++ (p.after cs).last

variable {p : Splitting} {w cs s : List Char} {c : Char}

@[simp] theorem after_nil (p : Splitting) : p.after [] = p := rfl

theorem after_append (p : Splitting) (x y : List Char) :
    p.after (x ++ y) = (p.after x).after y :=
  List.foldl_append

theorem emitted_append (x y : List Char) (p : Splitting) :
    p.emitted (x ++ y) = p.emitted x ++ (p.after x).emitted y := by
  induction x generalizing p with
  | nil => rfl
  | cons c x ih =>
      rw [List.cons_append, emitted, ih, emitted, List.append_assoc]
      rfl

/-- **The atoms of two parts of a text.** -/
theorem atoms_append (p : Splitting) (x y : List Char) :
    p.atoms (x ++ y) = p.emitted x ++ (p.after x).atoms y := by
  rw [atoms, emitted_append, after_append, List.append_assoc, atoms]

/-- Where the first part ends between two atoms, each part has its own. -/
theorem atoms_append_of_between {x : List Char} (h : p.after x = between) (y : List Char) :
    p.atoms (x ++ y) = p.atoms x ++ between.atoms y := by
  have hx : p.atoms x = p.emitted x := by
    rw [atoms, h]
    exact List.append_nil _
  rw [atoms_append, h, hx]

theorem atoms_cons (p : Splitting) (c : Char) (cs : List Char) :
    p.atoms (c :: cs) = (p.step c).1 ++ (p.step c).2.atoms cs := by
  rw [atoms, emitted, List.append_assoc]
  rfl

/-! ### One character -/

theorem step_solid (hc : isSolid c = true) (w : List Char) :
    step ⟨.outside, w⟩ c = ([], ⟨.outside, w ++ [c]⟩) := by
  rw [step, if_pos hc]

theorem step_loose (hc : isSolid c = false) (hquote : c ≠ '"') (w : List Char) :
    step ⟨.outside, w⟩ c = (complete w c, between) := by
  rw [step, if_neg (by simp [hc]), if_neg hquote]

theorem step_inside (hquote : c ≠ '"') (hbackslash : c ≠ '\\') (e : List Char) :
    step ⟨.inside, e⟩ c = ([], ⟨.inside, e ++ [c]⟩) := by
  rw [step, if_neg hquote, if_neg hbackslash]

end Splitting

/-- The atoms of a text. -/
def atoms (text : List Char) : List Atom :=
  Splitting.between.atoms text

/-! ### The text of an atom -/

variable {w s : List Char} {c : Char}

/-- The text ends, or goes on with a character that ends a word. -/
def EndsWord (s : List Char) : Prop :=
  ∀ d ∈ s.head?, d ∈ [' ', '(', ')', ']']

instance (s : List Char) : Decidable (EndsWord s) :=
  decidable_of_iff (s.head?.all (fun d => [' ', '(', ')', ']'].contains d) = true)
    (by simp [EndsWord, Option.all_eq_true])

/-- A class of characters that has neither blanks of JSON nor delimiters nor quotes. -/
theorem isSolid_of_class {p : Char → Bool}
    (hp : [' ', '\t', '\n', '\r', '(', ')', '[', ']', '"'].all (fun d => !p d) = true)
    (hc : p c = true) : isSolid c = true := by
  have hne : ∀ d ∈ [' ', '\t', '\n', '\r', '(', ')', '[', ']', '"'], c ≠ d := by
    rintro d hd rfl
    have := List.all_eq_true.mp hp c hd
    simp [hc] at this
  simp only [List.forall_mem_cons] at hne
  simp [isSolid, isDelimiter, Json.isSpace, hne]

theorem plain_of_isSolid (h : isSolid c = true) : Plain c := by
  simp only [isSolid, Bool.not_eq_true', Bool.or_eq_false_iff, beq_eq_false_iff_ne] at h
  exact ⟨h.1.2, h.2⟩

theorem isSpace_of_isSolid (h : isSolid c = true) : Json.isSpace c = false := by
  simp only [isSolid, Bool.not_eq_true', Bool.or_eq_false_iff] at h
  exact h.1.1

theorem not_isSolid (h : c ∈ [' ', '(', ')', ']']) : isSolid c = false ∧ c ≠ '"' := by
  simp only [List.mem_cons, List.not_mem_nil, or_false] at h
  rcases h with rfl | rfl | rfl | rfl <;> decide

theorem atoms_loose (hc : isSolid c = false) (hquote : c ≠ '"') (w s : List Char) :
    Splitting.atoms ⟨.outside, w⟩ (c :: s) = Splitting.complete w c ++ atoms s := by
  rw [Splitting.atoms_cons, Splitting.step_loose hc hquote]
  rfl

theorem atoms_solid (hw : ∀ c ∈ w, isSolid c = true) (v s : List Char) :
    Splitting.atoms ⟨.outside, v⟩ (w ++ s) = Splitting.atoms ⟨.outside, v ++ w⟩ s := by
  induction w generalizing v with
  | nil => rw [List.append_nil]; rfl
  | cons c w ih =>
      rw [List.forall_mem_cons] at hw
      rw [List.cons_append, Splitting.atoms_cons, Splitting.step_solid hw.1, ih hw.2,
        List.append_assoc]
      rfl

@[simp] theorem atoms_nil : atoms [] = [] := rfl

@[simp] theorem atoms_space (s : List Char) : atoms (' ' :: s) = atoms s :=
  atoms_loose (by decide) (by decide) [] s

@[simp] theorem atoms_spaces (n : Nat) (s : List Char) :
    atoms (List.replicate n ' ' ++ s) = atoms s := by
  induction n with
  | zero => rfl
  | succ n ih => rw [List.replicate_succ, List.cons_append, atoms_space, ih]

/-- A character that ends a word completes it, and nothing else of it counts. -/
theorem complete_eq (h : c ∈ [' ', '(', ')', ']']) (w : List Char) :
    Splitting.complete w c = Atom.ended w ++ Splitting.complete [] c := by
  simp only [List.mem_cons, List.not_mem_nil, or_false] at h
  rcases h with rfl | rfl | rfl | rfl <;> simp [Splitting.complete, Atom.ended, Json.isSpace]

theorem atoms_endsWord (hs : EndsWord s) (w : List Char) :
    Splitting.atoms ⟨.outside, w⟩ s = Atom.ended w ++ atoms s := by
  cases s with
  | nil => simp [Splitting.atoms, Splitting.emitted, Splitting.last]
  | cons d s =>
      obtain ⟨hd, hquote⟩ := not_isSolid (hs d rfl)
      rw [atoms_loose hd hquote, complete_eq (hs d rfl), List.append_assoc]
      exact congrArg _ (atoms_loose hd hquote [] s).symm

/-- A word in front of what ends it. -/
theorem atoms_word (hne : w ≠ []) (hw : ∀ c ∈ w, isSolid c = true) (hs : EndsWord s) :
    atoms (w ++ s) = .word w :: atoms s := by
  obtain ⟨c, w, rfl⟩ := List.exists_cons_of_ne_nil hne
  exact (atoms_solid hw [] s).trans (atoms_endsWord hs (c :: w))

theorem atoms_opened (hw : ∀ c ∈ w, isSolid c = true) (s : List Char) :
    atoms (w ++ '[' :: s) = .opened w :: atoms s :=
  (atoms_solid hw [] _).trans (atoms_loose (by decide) (by decide) w s)

theorem atoms_mark (h : c ∈ ['(', ')', ']']) (s : List Char) :
    atoms (c :: s) = .mark c :: atoms s := by
  obtain ⟨hc, hquote⟩ := not_isSolid (List.mem_cons_of_mem ' ' h)
  refine (atoms_loose hc hquote [] s).trans ?_
  simp only [List.mem_cons, List.not_mem_nil, or_false] at h
  rcases h with rfl | rfl | rfl <;> rfl

theorem atoms_blank (hc : Json.isSpace c = true) (hspace : c ≠ ' ') (s : List Char) :
    atoms (c :: s) = .blank c :: atoms s := by
  simp only [Json.isSpace, Bool.or_eq_true, beq_iff_eq] at hc
  rcases hc with ((rfl | rfl) | rfl) | rfl
  all_goals first
    | exact absurd rfl hspace
    | exact atoms_loose (by decide) (by decide) [] s

theorem atoms_body {body : List Char} (h : StringBody body) (e s : List Char) :
    Splitting.atoms ⟨.inside, e⟩ (body ++ s) = Splitting.atoms ⟨.inside, e ++ body⟩ s := by
  induction h generalizing e with
  | nil => rw [List.append_nil]; rfl
  | @plain c w hquote hbackslash _ ih =>
      rw [List.cons_append, Splitting.atoms_cons, Splitting.step_inside hquote hbackslash, ih,
        List.append_assoc]
      rfl
  | @escaped w c _ ih =>
      have hstep : Splitting.step ⟨.inside, e⟩ '\\' = ([], ⟨.escaped, e ++ ['\\']⟩) := rfl
      rw [List.cons_append, List.cons_append, Splitting.atoms_cons, hstep, Splitting.atoms_cons]
      refine (ih ((e ++ ['\\']) ++ [c])).trans ?_
      rw [List.append_assoc, List.append_assoc]
      rfl

/-- A string in front of any text. -/
theorem atoms_quoted {body : List Char} (h : StringBody body) (s : List Char) :
    atoms ('"' :: body ++ '"' :: s) = .quoted ('"' :: body ++ ['"']) :: atoms s := by
  have hopen : atoms ('"' :: body ++ '"' :: s) =
      Splitting.atoms ⟨.inside, ['"']⟩ (body ++ '"' :: s) :=
    Splitting.atoms_cons _ '"' _
  rw [hopen, atoms_body h, Splitting.atoms_cons]
  rfl

/-! ### The first atom -/

/-- The text starts with an atom, and goes on with the text `r`. -/
inductive First : List Char → Atom → List Char → Prop where
  | word {w r : List Char} : w ≠ [] → (∀ c ∈ w, isSolid c = true) → EndsWord r →
      First (w ++ r) (.word w) r
  | cut {w r : List Char} : w ≠ [] → First (w ++ r) (.cut w) r
  | opened {w r : List Char} : (∀ c ∈ w, isSolid c = true) → First (w ++ '[' :: r) (.opened w) r
  | mark {c : Char} {r : List Char} : First (c :: r) (.mark c) r
  | blank {c : Char} {r : List Char} : First (c :: r) (.blank c) r
  | quoted {e r : List Char} : First ('"' :: e ++ r) (.quoted ('"' :: e)) r

/-- In a string, the atom that comes next is the string. -/
theorem exists_quoted {q : Quoting} (hq : q ≠ .outside) (w s : List Char) :
    ∃ e r, s = e ++ r ∧ Splitting.atoms ⟨q, w⟩ s = .quoted (w ++ e) :: atoms r := by
  induction s generalizing q w with
  | nil =>
      refine ⟨[], [], rfl, ?_⟩
      rw [List.append_nil]
      cases q with
      | outside => exact absurd rfl hq
      | inside => rfl
      | escaped => rfl
  | cons c s ih =>
      have hgo (q' : Quoting) (hq' : q' ≠ .outside)
          (hstep : Splitting.step ⟨q, w⟩ c = ([], ⟨q', w ++ [c]⟩)) :
          ∃ e r, c :: s = e ++ r ∧
            Splitting.atoms ⟨q, w⟩ (c :: s) = .quoted (w ++ e) :: atoms r := by
        obtain ⟨e, r, rfl, hatoms⟩ := ih hq' (w ++ [c])
        refine ⟨c :: e, r, rfl, ?_⟩
        rw [Splitting.atoms_cons, hstep, List.nil_append, hatoms, List.append_assoc]
        rfl
      cases q with
      | outside => exact absurd rfl hq
      | inside =>
          by_cases hquote : c = '"'
          · subst hquote
            exact ⟨['"'], s, rfl, Splitting.atoms_cons _ _ _⟩
          by_cases hbackslash : c = '\\'
          · subst hbackslash
            exact hgo .escaped (by simp) rfl
          · exact hgo .inside (by simp) (Splitting.step_inside hquote hbackslash w)
      | escaped => exact hgo .inside (by simp) rfl

/-- A character that belongs to no other is a space, a delimiter, a quote or another blank. -/
theorem loose_cases (hc : isSolid c = false) (hquote : c ≠ '"') :
    c ∈ [' ', '(', ')', ']'] ∨ c = '[' ∨ Json.isSpace c = true ∧ c ≠ ' ' := by
  by_cases hspace : c = ' '
  · exact .inl (by simp [hspace])
  · simp only [isSolid, isDelimiter, Bool.not_eq_false', Bool.or_eq_true, beq_iff_eq] at hc
    rcases hc with (hblank | ((rfl | rfl) | rfl) | rfl) | hc
    · exact .inr (.inr ⟨hblank, hspace⟩)
    · exact .inl (by simp)
    · exact .inl (by simp)
    · exact .inr (.inl rfl)
    · exact .inl (by simp)
    · exact absurd hc hquote

/-- In front of what ends a word, the characters `w` are the first atom, or else the mark behind
them is. -/
theorem exists_first_ended {w r : List Char} (hw : ∀ c ∈ w, isSolid c = true) (hends : EndsWord r)
    (hspace : ' ' ∉ (w ++ r).head?) : w ++ r = [] ∨
      ∃ a r', First (w ++ r) a r' ∧ Splitting.atoms ⟨.outside, w⟩ r = a :: atoms r' := by
  rw [atoms_endsWord hends]
  cases w with
  | cons d w => exact .inr ⟨_, r, .word (by simp) hw hends, rfl⟩
  | nil =>
      cases r with
      | nil => exact .inl rfl
      | cons c r =>
          have hmark : c ∈ ['(', ')', ']'] := by
            refine (List.mem_cons.mp (hends c rfl)).resolve_left ?_
            rintro rfl
            exact hspace rfl
          exact .inr ⟨_, r, .mark, atoms_mark hmark r⟩

/-- In front of a bracket, a quote or a blank that is no space, the first atom is made of the
characters `w`, if there are any, and with a bracket of the bracket as well. -/
theorem exists_first_cut {w r : List Char} (hw : ∀ c ∈ w, isSolid c = true)
    (hc : isSolid c = false) (hother : c ∉ [' ', '(', ')', ']']) :
    ∃ a r', First (w ++ c :: r) a r' ∧ Splitting.atoms ⟨.outside, w⟩ (c :: r) = a :: atoms r' := by
  by_cases hquote : c = '"'
  · subst hquote
    cases w with
    | cons d w => exact ⟨_, '"' :: r, .cut (by simp), rfl⟩
    | nil =>
        obtain ⟨e, r, rfl, hquoted⟩ := exists_quoted (q := .inside) (by simp) ['"'] r
        exact ⟨_, r, .quoted, hquoted⟩
  rw [atoms_loose hc hquote]
  rcases (loose_cases hc hquote).resolve_left hother with rfl | ⟨hblank, hne⟩
  · exact ⟨_, r, .opened hw, rfl⟩
  · have hbracket : c ≠ '[' := by
      rintro rfl
      cases hblank
    have hcomplete : Splitting.complete w c = Atom.cutOff w ++ [.blank c] := by
      rw [Splitting.complete, if_neg hne, if_neg hbracket, if_pos hblank]
    rw [hcomplete]
    cases w with
    | nil => exact ⟨_, r, .blank, rfl⟩
    | cons d w =>
        refine ⟨_, c :: r, .cut (by simp), ?_⟩
        rw [atoms_blank hblank hne]
        rfl

/-- **A text has a first atom**, behind spaces and in front of the text of the others, unless it is
nothing but spaces. -/
theorem first_cases (s : List Char) :
    (∀ c ∈ s, c = ' ') ∨ ∃ n t a r, s = List.replicate n ' ' ++ t ∧ First t a r ∧
      atoms s = a :: atoms r := by
  obtain ⟨n, s, rfl, hspace⟩ := exists_spaces s
  obtain ⟨w, r, rfl, hw, hr⟩ := exists_run isSolid s
  have hatoms : atoms (List.replicate n ' ' ++ (w ++ r)) = Splitting.atoms ⟨.outside, w⟩ r :=
    (atoms_spaces n _).trans (atoms_solid hw [] r)
  rw [hatoms]
  by_cases hends : EndsWord r
  · rcases exists_first_ended hw hends hspace with hnil | ⟨a, r', hfirst, hfound⟩
    · rw [hnil]
      exact .inl (by simp)
    · exact .inr ⟨n, _, a, r', rfl, hfirst, hfound⟩
  · cases r with
    | nil => exact absurd (fun d hd => absurd hd (by simp)) hends
    | cons c r =>
        have hother : c ∉ [' ', '(', ')', ']'] := by
          intro hc
          exact hends fun d hd => by cases hd; exact hc
        obtain ⟨a, r', hfirst, hfound⟩ := exists_first_cut (r := r) hw (hr c rfl) hother
        exact .inr ⟨n, _, a, r', rfl, hfirst, hfound⟩

theorem exists_first {as : List Atom} {a : Atom} (h : atoms s = a :: as) :
    ∃ n t r, s = List.replicate n ' ' ++ t ∧ First t a r ∧ atoms r = as := by
  rcases first_cases s with hspaces | ⟨n, t, a, r, rfl, hfirst, hatoms⟩
  · rw [List.eq_replicate_of_mem hspaces] at h
    have hnone := atoms_spaces s.length []
    rw [List.append_nil, h] at hnone
    cases hnone
  · rw [hatoms] at h
    cases h
    exact ⟨n, t, r, rfl, hfirst, rfl⟩

/-- A text without atoms is nothing but spaces. -/
theorem eq_space_of_atoms (h : atoms s = []) : ∀ c ∈ s, c = ' ' := by
  rcases first_cases s with hspaces | ⟨n, t, a, r, rfl, -, hatoms⟩
  · exact hspaces
  · rw [hatoms] at h
    cases h

/-! ### Spaces between atoms -/

variable {x y : List Char} {p : Splitting}

/-- Behind such a character, outside of strings, nothing is left to complete. -/
theorem Splitting.after_eq_between (hc : isSolid c = false ∧ c ≠ '"')
    (houtside : (p.after (x ++ [c])).quoting = .outside) : p.after (x ++ [c]) = between := by
  rw [after_append] at houtside ⊢
  generalize p.after x = q at houtside ⊢
  obtain ⟨quoting, w⟩ := q
  have hstep : after ⟨quoting, w⟩ [c] = (step ⟨quoting, w⟩ c).2 := rfl
  rw [hstep] at houtside ⊢
  cases quoting with
  | outside => rw [step_loose hc.1 hc.2]
  | inside =>
      rw [step, if_neg hc.2] at houtside
      split at houtside <;> cases houtside
  | escaped => cases houtside

/-- The texts may stand side by side or with spaces between them: a bracket, a parenthesis or a
space is behind the first one or in front of the second. -/
def Gap (x y : List Char) : Prop :=
  (∃ c ∈ x.getLast?, c ∈ [' ', '(', ')', '[', ']']) ∨ ∃ c ∈ y.head?, c ∈ [' ', '(', ')', ']']

/-- **A space in a gap makes no atoms.** -/
theorem Splitting.atoms_gap (houtside : (p.after x).quoting = .outside) (hgap : Gap x y) :
    p.atoms (x ++ ' ' :: y) = p.atoms (x ++ y) := by
  rw [atoms_append, atoms_append]
  congr 1
  rcases hgap with ⟨c, hlast, hc⟩ | ⟨c, hhead, hc⟩
  · obtain ⟨x, rfl⟩ := List.getLast?_eq_some_iff.mp hlast
    have hloose : isSolid c = false ∧ c ≠ '"' := by
      simp only [List.mem_cons, List.not_mem_nil, or_false] at hc
      rcases hc with rfl | rfl | rfl | rfl | rfl <;> decide
    rw [after_eq_between hloose houtside]
    exact atoms_space y
  · obtain ⟨y, rfl⟩ := List.head?_eq_some_iff.mp hhead
    generalize p.after x = q at houtside
    obtain ⟨quoting, w⟩ := q
    obtain rfl : quoting = .outside := houtside
    have hends : EndsWord (c :: y) := by
      rintro d ⟨⟩
      exact hc
    rw [atoms_endsWord hends, atoms_endsWord (by simp [EndsWord]), atoms_space]

end ScimQuery.Text
