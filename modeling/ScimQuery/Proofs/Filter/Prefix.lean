import ScimQuery.Proofs.Filter.Shift
import ScimQuery.Proofs.Filter.Stuck

/-!
# Filter — what is in front of an error

An error points at the first token that no filter has in its place: what is in front of this token
can be completed to a filter (`startsFilter_of_error`).  Where a filter ends too early, the text can
be completed, unless a bracket closes a value filter in which groups are open
(`startsFilter_of_unexpectedEnd`).  Both are about reading with a limit that no text of this length
comes to.

* `Reading.Reached`: reading has come to a place of the text, and comes there whatever stands behind
  it.  Each phrase keeps this (`Reached.step`), for it does not depend on what follows it.
* `Reading.Reached.starts`: what has been read starts a filter, for any state that is sound can be
  completed.
* `Reading.Refused`, `Reading.Reached.refused`: the three ways in which reading fails, from any
  place on; by induction on what is left of the text.

Blanks in front of the text move the places of its errors, so that the law on whole texts is that
on texts without blanks around them.
-/

namespace ScimQuery

open Text (Cursor Lands Local Replaces Solid Trimmed isBlank isWordChar isKeyword)

/-- The text can be completed to a filter. -/
def StartsFilter (d : Nat) (text : List Char) : Prop :=
  ∃ (more : String) (f : Filter),
    parseFilter { maxDepth := d } (String.ofList text ++ more) = .ok f

variable {d : Nat} {text x y rest u v s : List Char}

theorem startsFilter_iff :
    StartsFilter d text ↔ ∃ u f, parseFilterChars { maxDepth := d } (text ++ u) = .ok f := by
  simp only [StartsFilter, parseFilter, String.toList_append, String.toList_ofList]
  constructor
  · rintro ⟨more, h⟩
    exact ⟨more.toList, h⟩
  · rintro ⟨u, h⟩
    exact ⟨String.ofList u, by simpa using h⟩

/-- Blanks may stand in front of what is completed. -/
theorem StartsFilter.blanks_append {w : List Char} (h : StartsFilter d x)
    (hw : ∀ c ∈ w, isBlank c = true) : StartsFilter d (w ++ x) := by
  obtain ⟨u, f, h⟩ := startsFilter_iff.mp h
  refine startsFilter_iff.mpr ⟨u, f, ?_⟩
  rw [List.append_assoc, parseFilterChars_blanks_append hw, h]
  rfl

/-! ### Texts without blanks around them -/

namespace Text

theorem Trimmed.head (h : Trimmed (x ++ s)) : ∀ c ∈ x.head?, isBlank c = false := by
  cases x with
  | nil => simp
  | cons c x => exact h.1

/-- A text without blanks around it does not end in blanks. -/
theorem Trimmed.eq_nil (h : Trimmed (x ++ y)) (hy : ∀ c ∈ y, isBlank c = true) : y = [] := by
  by_contra hne
  have hlast := h.2 (y.getLast hne) (by
    rw [List.getLast?_append_of_ne_nil _ hne, List.getLast?_eq_getLast_of_ne_nil hne]
    rfl)
  rw [hy _ (List.getLast_mem hne)] at hlast
  cases hlast

theorem solid_trimEnd (cs : List Char) : Solid (trimEnd cs) := by
  intro c hc
  rw [trimEnd, dropEnd, List.getLast?_reverse] at hc
  have hhead := List.head?_dropWhile_not isBlank cs.reverse
  rw [Option.mem_def.mp hc] at hhead
  simpa using hhead

/-- Behind a character that is no blank, a text is one that does not end in blanks, and blanks. -/
theorem exists_solid_tail {c : Char} (hc : isBlank c = false) (more : List Char) :
    ∃ t tail, more = t ++ tail ∧ (∀ d ∈ tail, isBlank d = true) ∧ Solid (c :: t) := by
  obtain ⟨tail, hmore, htail⟩ := exists_blank_tail (c :: more)
  have hsolid := solid_trimEnd (c :: more)
  generalize trimEnd (c :: more) = t at hmore hsolid
  cases t with
  | nil =>
      rw [List.nil_append] at hmore
      rw [htail c (hmore ▸ List.mem_cons_self)] at hc
      cases hc
  | cons d t =>
      obtain ⟨rfl, hrest⟩ := List.cons.inj hmore
      exact ⟨t, tail, hrest, htail, hsolid⟩

end Text

/-- A text without blanks around it is read from its start. -/
theorem parseFilterChars_of_trimmed (h : Trimmed text) :
    parseFilterChars { maxDepth := d } text =
      Prod.fst <$> Reading.start.run { maxDepth := d } ⟨0, text⟩ := by
  rw [parseFilterChars, openText_of_trimmed h, map_eq_pure_bind]
  rfl

theorem parseFilterChars_eq_ok (h : Trimmed text)
    (hrun : ∃ found, Reading.start.run { maxDepth := d } ⟨0, text⟩ = .ok found) :
    ∃ f, parseFilterChars { maxDepth := d } text = .ok f := by
  obtain ⟨found, hrun⟩ := hrun
  exact ⟨found.1, by rw [parseFilterChars_of_trimmed h, hrun]; rfl⟩

namespace Reading

theorem sound_start : start.Sound 0 := by
  refine ⟨.outermost ⟨rfl, by simp [start]⟩ rfl, rfl, ?_⟩
  intro e he
  cases he

/-- An empty text can be completed. -/
theorem startsFilter_nil (d : Nat) : StartsFilter d [] := by
  have htrimmed : Trimmed ("a pr".toList ++ closers start.level start.outer) := by decide
  obtain ⟨f, h⟩ := parseFilterChars_eq_ok htrimmed (sound_start.run_operand rfl 0)
  exact startsFilter_iff.mpr ⟨_, f, h⟩

/-- A text starts a filter if reading it and what completes it succeeds. -/
theorem startsFilter_of_run (hne : u ≠ []) (hu : Solid u) (n : Nat)
    (hhead : ∀ c ∈ x.head?, isBlank c = false)
    (hrun : ∃ found, start.run { maxDepth := d } ⟨0, x ++ (List.replicate (n + 1) ' ' ++ u)⟩ =
      .ok found) : StartsFilter d (x ++ List.replicate n ' ') := by
  by_cases hempty : x = []
  · rw [hempty, List.nil_append, ← List.append_nil (List.replicate n ' ')]
    refine (startsFilter_nil d).blanks_append ?_
    intro c hc
    rw [List.eq_of_mem_replicate hc]
    decide
  · have htrimmed : Trimmed (x ++ (List.replicate (n + 1) ' ' ++ u)) :=
      Text.trimmed_append hempty (by simp) hhead (hu.append_of_ne_nil hne _)
    obtain ⟨f, h⟩ := parseFilterChars_eq_ok htrimmed hrun
    refine startsFilter_iff.mpr ⟨' ' :: u, f, ?_⟩
    rwa [List.replicate_succ', List.append_assoc, List.singleton_append, ← List.append_assoc] at h

/-! ### What has been read -/

/-- What is in front of the place starts a filter. -/
def StartsAt (d : Nat) (text : List Char) (p : Nat) : Prop :=
  ∃ x, x <+: text ∧ x.length = p ∧ StartsFilter d x

/-- Reading a text without blanks around it has come to the place behind `x`, and it does so
whatever stands there in place of `rest`. -/
structure Reached (d : Nat) (text x rest : List Char) (r : Reading) : Prop where
  short : text.length < d
  trimmed : Trimmed text
  parts : text = x ++ rest
  sound : r.Sound 0
  /-- What is open has been opened by a character. -/
  nesting : r.level.nesting ≤ x.length
  resumes : ∀ s, Replaces s rest →
    start.run { maxDepth := d } ⟨0, x ++ s⟩ = r.run { maxDepth := d } ⟨x.length, s⟩
  opened : r.OpenedAt (StartsAt d text)

variable {n : Nat} {r r' : Reading} {phrase : Phrase} {due : Bool} {next : Cursor} {e : Error}

theorem reached_start (hd : text.length < d) (htext : Trimmed text) :
    Reached d text [] text start where
  short := hd
  trimmed := htext
  parts := rfl
  sound := sound_start
  nesting := Nat.le_refl 0
  resumes := fun _ _ => rfl
  opened := ⟨nofun, nofun⟩

theorem Reached.nesting_lt (h : Reached d text x rest r) : r.level.nesting < d := by
  have hlength : x.length ≤ text.length := by
    rw [h.parts, List.length_append]
    exact Nat.le_add_right _ _
  exact Nat.lt_of_le_of_lt (h.nesting.trans hlength) h.short

/-- **What has been read, with the beginning of a phrase behind it, starts a filter**, and so it
does with spaces behind it. -/
theorem Reached.starts (h : Reached d text x (v ++ s) r)
    (hv : Phrase.Begun r.level.operandDue v) (n : Nat) :
    StartsFilter d (x ++ v ++ List.replicate n ' ') := by
  have hviable : r.Viable { maxDepth := d } v := h.sound.viable_begun h.nesting_lt hv
  obtain ⟨u, hne, hsolid, hu⟩ := hviable
  have hparts : Trimmed (x ++ v ++ s) := by
    rw [List.append_assoc, ← h.parts]
    exact h.trimmed
  refine startsFilter_of_run hne hsolid n hparts.head ?_
  have hspace : Replaces (v ++ (List.replicate (n + 1) ' ' ++ u)) (v ++ s) :=
    Text.replaces_append_space v s _
  rw [List.append_assoc, h.resumes _ hspace]
  exact hu x.length n

/-- The place in front of a token, behind spaces. -/
theorem Reached.startsAt (h : Reached d text x (v ++ (List.replicate n ' ' ++ s)) r)
    (hv : Phrase.Begun r.level.operandDue v) :
    StartsAt d text (x.length + v.length + n) := by
  refine ⟨x ++ v ++ List.replicate n ' ', ⟨s, ?_⟩, by simp [Nat.add_assoc], h.starts hv n⟩
  rw [h.parts]
  simp

/-- The place of a token where a phrase starts. -/
theorem Reached.startsAt_token {l : Token.Lexeme} (h : Reached d text x rest r)
    (htoken : Token.read r.level.region ⟨x.length, rest⟩ = .ok (some l)) :
    StartsAt d text l.position := by
  obtain ⟨n, s, hrest, hposition⟩ := (Token.read_eq_some_iff.mp htoken).exists_spaces
  obtain rfl : rest = [] ++ (List.replicate n ' ' ++ s) := hrest
  rw [hposition]
  exact h.startsAt .start

/-- **A phrase leads from one place to the next.** -/
theorem Reached.step (h : Reached d text x rest r) (hdue : r.level.operandDue = due)
    (hread : Phrase.Reads r.level.region due ⟨x.length, rest⟩ phrase next)
    (hstep : r.step { maxDepth := d } phrase = .ok (.more r')) :
    ∃ w, w ≠ [] ∧ rest = w ++ next.rest ∧ next = ⟨(x ++ w).length, next.rest⟩ ∧
      Reached d text (x ++ w) next.rest r' := by
  obtain ⟨w, hne, hrest, hposition, hlocal⟩ := hread.local
  have hlength : next.position = (x ++ w).length := by rw [hposition, List.length_append]
  refine ⟨w, hne, hrest, by rw [← hlength], ?_⟩
  constructor
  case short => exact h.short
  case trimmed => exact h.trimmed
  case parts =>
    rw [h.parts, List.append_assoc]
    exact congrArg (x ++ ·) hrest
  case sound => exact h.sound.step hdue hread hstep
  case nesting =>
    have hone : 1 ≤ w.length := List.length_pos_of_ne_nil hne
    have hnesting := (h.sound.step_stacked hread hstep).2
    have hbefore := h.nesting
    rw [List.length_append]
    omega
  case resumes =>
    intro s hs
    obtain ⟨after, hlands, hread'⟩ := hlocal s hs
    have hwhole : Replaces (w ++ s) rest := by
      rw [show rest = w ++ next.rest from hrest]
      exact Text.replaces_append hne s next.rest
    have hrun : r.run { maxDepth := d } _ = r.step { maxDepth := d } phrase >>= proceed _ after :=
      run_reads hdue hread'
    rw [List.append_assoc, h.resumes _ hwhole, hrun, hstep, ← hlength]
    exact hlands.apply_eq (run_pastSpace r')
  case opened =>
    refine h.sound.step_openedAt hdue hread hstep h.opened ?_
    rintro path k rfl
    cases hread with
    | openValue htoken => exact h.startsAt_token htoken

/-! ### Why a text is refused -/

/-- Why a text without blanks around it is refused. -/
inductive Refused (d : Nat) (text : List Char) (e : Error) : Prop where
  /-- A token does not fit in its place. -/
  | token {p : Nat} : e.tokenStart? = some p → StartsAt d text p → Refused d text e
  /-- The text ends too early. -/
  | ending : e.tokenStart? = none →
      (∀ n, StartsFilter d (text ++ List.replicate n ' ')) → Refused d text e
  /-- A bracket closes a value filter too early: the groups that are open in it have to be closed
  first. -/
  | bracket {x y : List Char} {n : Nat} : e.tokenStart? = none → text = x ++ ']' :: y → 0 < n →
      StartsFilter d (x ++ List.replicate n ')' ++ [']']) →
        (∀ more, parseFilterChars { maxDepth := d } (x ++ ']' :: more) = .error e) →
          Refused d text e

theorem tokenStart?_of_finish {l : Level} (h : l.finish = .error e) : e.tokenStart? = none := by
  have hlocated : Located {} [] (fun _ => True) l.finish := Level.finish_located
  exact Error.tokenStart?_of_places_nil (hlocated.places_eq_nil h)

/-- A text that ends behind the beginning of a phrase ends too early. -/
theorem Reached.refused_ending (h : Reached d text x (v ++ s) r)
    (hv : Phrase.Begun r.level.operandDue v)
    (hs : ∀ c ∈ s, isBlank c = true) (he : e.tokenStart? = none) : Refused d text e := by
  have hparts : text = x ++ v ++ s := by rw [h.parts, List.append_assoc]
  obtain rfl : s = [] := Text.Trimmed.eq_nil (hparts ▸ h.trimmed) hs
  rw [List.append_nil] at hparts
  exact .ending he (hparts ▸ h.starts hv)

theorem Reached.refused_phrase (h : Reached d text x rest r)
    (hstuck : Phrase.Stuck r.level.operandDue ⟨x.length, rest⟩ e) : Refused d text e := by
  obtain ⟨v, n, s, hv, hrest, he⟩ := hstuck
  obtain rfl : rest = v ++ (List.replicate n ' ' ++ s) := hrest
  rcases he with he | ⟨rfl, hs⟩
  · exact .token he (h.startsAt hv)
  · refine h.refused_ending hv ?_ rfl
    intro c hc
    rcases List.mem_append.mp hc with hc | hc
    · rw [List.eq_of_mem_replicate hc]
      decide
    · exact hs c hc

theorem Reached.refused_finish (h : Reached d text x rest r)
    (hend : Token.read r.level.region ⟨x.length, rest⟩ = .ok none)
    (hfinish : r.finish = .error e) : Refused d text e := by
  unfold finish at hfinish
  split at hfinish
  · rename_i p hbracket
    cases hfinish
    exact .token rfl (h.opened.level p hbracket)
  · refine Reached.refused_ending (v := []) h .start ?_ (tokenStart?_of_finish hfinish)
    intro c hc
    rw [Token.read_eq_none_iff.mp hend c hc]
    decide

/-- Between brackets, there is a level around the one that is read. -/
theorem Sound.exists_outer (h : r.Sound 0) (hregion : r.level.region = .valueFilter) :
    ∃ path suspended outer, r.outer = (path, suspended) :: outer := by
  obtain ⟨l, outer⟩ := r
  cases h.stacked with
  | outermost htracked hdepth =>
      rw [Level.region, htracked.bracket.mpr hdepth] at hregion
      cases hregion
  | inside => exact ⟨_, _, _, rfl⟩

/-- Behind the closing parentheses of the groups that are open, a bracket closes the value
filter. -/
theorem Reached.starts_closed (h : Reached d text x (List.replicate n ' ' ++ ']' :: s) r)
    (hregion : r.level.region = .valueFilter)
    (hdue : r.level.operandDue = false) (hopen : r.level.openGroups ≠ 0) :
    StartsFilter d
      (x ++ List.replicate n ' ' ++ List.replicate r.level.openGroups ')' ++ [']']) := by
  obtain ⟨l, outer⟩ := r
  obtain ⟨path, suspended, outer, rfl⟩ := h.sound.exists_outer hregion
  obtain ⟨l', h', hdue', hopen', hgroups⟩ :=
    h.sound.run_groups { maxDepth := d } l.openGroups hdue rfl (x.length + n)
  obtain ⟨f, hafter, hbracket⟩ :=
    h'.run_bracket { maxDepth := d } hdue' hopen' (x.length + n + l.openGroups)
  obtain ⟨u, hne, hsolid, hu⟩ := hafter.viable { maxDepth := d }
  -- a group that is open has a parenthesis in what has been read
  have hx : x ≠ [] := by
    rintro rfl
    have hnesting : l.depth + l.openGroups ≤ 0 := h.nesting
    exact hopen (Nat.eq_zero_of_add_eq_zero_left (Nat.le_zero.mp hnesting))
  have hhead : ∀ c ∈ x.head?, isBlank c = false := (h.parts ▸ h.trimmed).head
  have hreplaces : Replaces (List.replicate n ' ' ++
      (List.replicate l.openGroups ')' ++ ']' :: (List.replicate 1 ' ' ++ u)))
      (List.replicate n ' ' ++ ']' :: s) := by
    right
    intro c hc
    obtain ⟨g, hg⟩ := Nat.exists_eq_succ_of_ne_zero hopen
    cases n with
    | zero =>
        have hg' : l.openGroups = g + 1 := hg
        rw [hg'] at hc
        cases hc
        exact .inr rfl
    | succ n =>
        cases hc
        exact .inl rfl
  have hrun := startsFilter_of_run (d := d)
    (x := x ++ List.replicate n ' ' ++ List.replicate l.openGroups ')' ++ [']']) hne hsolid 0 ?_ ?_
  · rwa [List.replicate_zero, List.append_nil] at hrun
  · rwa [List.append_assoc, List.append_assoc, List.head?_append_of_ne_nil _ hx]
  · simp only [List.append_assoc, List.singleton_append]
    rw [h.resumes _ hreplaces, run_replicate, hgroups, hbracket]
    exact hu _ 0

/-- A bracket in front of which groups are open is refused, whatever stands behind it. -/
theorem Reached.fails_bracket (h : Reached d text x (List.replicate n ' ' ++ ']' :: s) r)
    (hregion : r.level.region = .valueFilter)
    (hdue : r.level.operandDue = false) (hfinish : r.level.finish = .error e)
    (more : List Char) :
    parseFilterChars { maxDepth := d } (x ++ List.replicate n ' ' ++ ']' :: more) = .error e := by
  -- the blanks at the end of what stands behind it make no difference
  obtain ⟨t, tail, rfl, htail, hsolid⟩ := Text.exists_solid_tail (c := ']') (by decide) more
  have hparts : Trimmed ((x ++ List.replicate n ' ' ++ [']']) ++ s) := by
    rw [List.append_assoc, List.append_assoc, List.singleton_append, ← h.parts]
    exact h.trimmed
  have htrimmed : Trimmed (x ++ List.replicate n ' ' ++ ']' :: t) := by
    refine ⟨?_, by rwa [List.getLast?_append_of_ne_nil _ (by simp)]⟩
    rw [List.append_cons, List.head?_append_of_ne_nil _ (by simp)]
    exact hparts.head
  have htoken (p : Nat) : Token.read r.level.region ⟨p, List.replicate n ' ' ++ ']' :: t⟩ =
      .ok (some ⟨.closeBracket, p + n, ⟨p + n + 1, t⟩⟩) := by
    rw [Token.read_replicate, hregion]
    exact Token.read_of_lexes (.delimiter rfl)
  have hreplaces : Replaces (List.replicate n ' ' ++ ']' :: t)
      (List.replicate n ' ' ++ ']' :: s) := by
    rw [List.append_cons, List.append_cons _ _ s]
    exact Text.replaces_append (by simp) t s
  have hclose : r.closeValue = .error e := by
    simp only [closeValue, hfinish]
    rfl
  have hrun (p : Nat) : r.run { maxDepth := d } ⟨p, List.replicate n ' ' ++ ']' :: t⟩ =
      r.closeValue >>= proceed _ ⟨p + n + 1, t⟩ :=
    run_closeValue hdue (htoken p)
  rw [← List.cons_append, ← List.append_assoc, parseFilterChars_append_blanks htail,
    parseFilterChars_of_trimmed htrimmed, List.append_assoc, h.resumes _ hreplaces, hrun, hclose]
  rfl

theorem Reached.refused_bracket (h : Reached d text x rest r) {k : Nat}
    (htoken : Token.read r.level.region ⟨x.length, rest⟩ = .ok (some ⟨.closeBracket, k, next⟩))
    (hdue : r.level.operandDue = false) (hopen : r.level.openGroups ≠ 0)
    (hfinish : r.level.finish = .error e) : Refused d text e := by
  have hregion := Token.read_closeBracket htoken
  obtain ⟨n, s, hrest⟩ := Token.exists_closeBracket htoken
  obtain rfl : rest = List.replicate n ' ' ++ ']' :: s := hrest
  refine .bracket (x := x ++ List.replicate n ' ') (y := s) (tokenStart?_of_finish hfinish) ?_
    (Nat.pos_of_ne_zero hopen) (h.starts_closed hregion hdue hopen)
    (h.fails_bracket hregion hdue hfinish)
  rw [h.parts, List.append_assoc]

/-- A step that fails is that of a token that does not fit in its place. -/
theorem Reached.refused_step (h : Reached d text x rest r)
    (hread : Phrase.Reads r.level.region r.level.operandDue ⟨x.length, rest⟩ phrase next)
    (hstep : r.step { maxDepth := d } phrase = .error e) : Refused d text e := by
  generalize hdue : r.level.operandDue = due at hread
  rcases h.sound.step_error hdue hread h.nesting_lt hstep with
    ⟨k, rfl, rfl⟩ | ⟨rfl, hdue, hopen, hfinish⟩
  · cases hread with
    | closeGroup htoken => exact .token rfl (h.startsAt_token htoken)
  · cases hread with
    | closeValue htoken => exact h.refused_bracket htoken hdue hopen hfinish

/-- **Why reading fails**, from any place on. -/
theorem Reached.refused : ∀ {x rest : List Char} {r : Reading}, Reached d text x rest r →
    r.run { maxDepth := d } ⟨x.length, rest⟩ = .error e → Refused d text e
  | x, rest, r, h, hrun => by
      cases hread : Phrase.read r.level.region r.level.operandDue ⟨x.length, rest⟩ with
      | error e' =>
          rw [run_error hread] at hrun
          cases hrun
          exact h.refused_phrase (Phrase.read_stuck hread)
      | ok found =>
          rcases found with _ | ⟨phrase, next⟩
          · have hend := Phrase.read_eq_none_iff.mp hread
            rw [run_end hend] at hrun
            cases hfinish : r.finish with
            | ok f =>
                rw [hfinish] at hrun
                cases hrun
            | error e' =>
                rw [hfinish] at hrun
                cases hrun
                exact h.refused_finish hend hfinish
          · have hreads := Phrase.read_eq_some_iff.mp hread
            have hlength := Phrase.read_length hread
            rw [run_phrase hread] at hrun
            cases hstep : r.step { maxDepth := d } phrase with
            | error e' =>
                rw [hstep] at hrun
                cases hrun
                exact h.refused_step hreads hstep
            | ok progress =>
                rw [hstep] at hrun
                cases progress with
                | done f => cases hrun
                | more r' =>
                    obtain ⟨w, -, -, hnext, h'⟩ := h.step rfl hreads hstep
                    rw [hnext] at hrun
                    exact h'.refused hrun
termination_by _ rest => rest.length

end Reading

/-! ### Whole texts -/

/-- A text is blanks, a text without blanks around it, and blanks. -/
theorem Text.exists_trimmed (text : List Char) :
    ∃ w m tail, text = w ++ m ++ tail ∧ trimEnd text = w ++ m ∧ Trimmed m ∧
      (∀ c ∈ w, isBlank c = true) ∧ ∀ c ∈ tail, isBlank c = true := by
  obtain ⟨tail, htext, htail⟩ := exists_blank_tail text
  have hsolid := solid_trimEnd text
  obtain ⟨w, m, hparts, hw, hm⟩ := exists_run isBlank (trimEnd text)
  refine ⟨w, m, tail, by rwa [← hparts], hparts, ⟨hm, ?_⟩, hw, htail⟩
  intro c hc
  have hne : m ≠ [] := by
    rintro rfl
    cases hc
  rw [hparts, Solid, List.getLast?_append_of_ne_nil _ hne] at hsolid
  exact hsolid c hc

/-- **Why a text is refused**: for the reason that the text without the blanks around it is refused
for. -/
theorem exists_refused {e : Error} (hd : text.length < d)
    (h : parseFilterChars { maxDepth := d } text = .error e) :
    ∃ w m tail e', text = w ++ m ++ tail ∧ Text.trimEnd text = w ++ m ∧
      (∀ c ∈ w, isBlank c = true) ∧ e = e'.shift w.length ∧ Reading.Refused d m e' := by
  obtain ⟨w, m, tail, rfl, hend, hm, hw, htail⟩ := Text.exists_trimmed text
  rw [parseFilterChars_append_blanks htail, parseFilterChars_blanks_append hw,
    parseFilterChars_of_trimmed hm] at h
  cases hrun : Reading.start.run { maxDepth := d } ⟨0, m⟩ with
  | ok found =>
      rw [hrun] at h
      cases h
  | error e' =>
      rw [hrun] at h
      cases h
      have hlength : m.length < d := by
        simp only [List.length_append] at hd
        omega
      exact ⟨w, m, tail, e', rfl, hend, hw, rfl,
        (Reading.reached_start hlength hm).refused hrun⟩

/-- **An error points at the first token that no filter has in its place**: what is in front of the
token can be completed to a filter. -/
theorem startsFilter_of_error (d : Nat) (text : String) (e : Error) (p : Nat)
    (hd : text.length < d) (h : parseFilter { maxDepth := d } text = .error e)
    (hp : e.tokenStart? = some p) : StartsFilter d (text.toList.take p) := by
  obtain ⟨w, m, tail, e', htext, -, hw, rfl, hrefused⟩ :=
    exists_refused (by rwa [String.length_toList]) h
  rw [Error.tokenStart?_shift, Option.map_eq_some_iff] at hp
  obtain ⟨q, hq, rfl⟩ := hp
  cases hrefused with
  | token hq' hstarts =>
      obtain ⟨x, ⟨y, rfl⟩, rfl, hx⟩ := hstarts
      rw [hq] at hq'
      cases hq'
      have htake : (w ++ (x ++ y) ++ tail).take (x.length + w.length) = w ++ x := by
        rw [Nat.add_comm, ← List.length_append, ← List.append_assoc, List.append_assoc (w ++ x),
          List.take_left]
      rw [htext, htake]
      exact hx.blanks_append hw
  | ending hnone => rw [hnone] at hq; cases hq
  | bracket hnone => rw [hnone] at hq; cases hq

/-- The token that the bracket stands in starts in front of it, at the second attribute. -/
theorem startsFilter_of_error_word :
    parseFilter { maxDepth := 64 } " a[b pr] or c]d pr" = .error (.unexpectedCharacter ']' 13 12) ∧
      StartsFilter 64 " a[b pr] or ".toList := by
  have h : parseFilter { maxDepth := 64 } " a[b pr] or c]d pr" =
      .error (.unexpectedCharacter ']' 13 12) := by
    rw [← Text.refusal?_eq_some_iff]
    decide +kernel
  have hlength : " a[b pr] or c]d pr".length < 64 := by decide
  have htake : " a[b pr] or c]d pr".toList.take 12 = " a[b pr] or ".toList := by decide
  exact ⟨h, htake ▸ startsFilter_of_error 64 _ _ 12 hlength h rfl⟩

/-- **Where a filter ends too early, the text can be completed**, or a bracket closes a value filter
in which groups are open.  In front of this bracket the groups can be closed; behind it, nothing
makes up for them. -/
theorem startsFilter_of_unexpectedEnd (d : Nat) (text : String) (hd : text.length < d)
    (h : parseFilter { maxDepth := d } text = .error .unexpectedEndOfFilter) :
    (∀ n, StartsFilter d (Text.trimEnd text.toList ++ List.replicate n ' ')) ∨
    ∃ x y n, text.toList = x ++ ']' :: y ∧ 0 < n ∧
      StartsFilter d (x ++ List.replicate n ')' ++ [']']) ∧
      ∀ more : String, parseFilter { maxDepth := d } (String.ofList (x ++ [']']) ++ more) =
        .error .unexpectedEndOfFilter := by
  obtain ⟨w, m, tail, e', htext, hend, hw, he, hrefused⟩ :=
    exists_refused (by rwa [String.length_toList]) h
  obtain rfl : e' = .unexpectedEndOfFilter := by cases e' <;> cases he; rfl
  cases hrefused with
  | token hp => cases hp
  | ending _ hstarts =>
      left
      intro n
      rw [hend, List.append_assoc]
      exact (hstarts n).blanks_append hw
  | @bracket x y n _ hm hn hstarts hfails =>
      right
      refine ⟨w ++ x, y ++ tail, n, by simp [htext, hm], hn, ?_, ?_⟩
      · simpa using hstarts.blanks_append hw
      · intro more
        have hbehind : parseFilterChars { maxDepth := d } (w ++ (x ++ ']' :: more.toList)) = _ :=
          parseFilterChars_blanks_append hw
        rw [hfails] at hbehind
        have hchars : (String.ofList (w ++ x ++ [']']) ++ more).toList =
            w ++ (x ++ ']' :: more.toList) := by simp
        rw [parseFilter, hchars, hbehind]
        rfl

/-- A value is missing, and a parenthesis is; the tab at the end does not count. -/
theorem startsFilter_of_unexpectedEnd_value :
    parseFilter { maxDepth := 64 } "(a pr and b eq\t" = .error .unexpectedEndOfFilter ∧
      ∀ n, StartsFilter 64 ("(a pr and b eq".toList ++ List.replicate n ' ') := by
  have h : parseFilter { maxDepth := 64 } "(a pr and b eq\t" = .error .unexpectedEndOfFilter := by
    rw [← Text.refusal?_eq_some_iff]
    decide +kernel
  have hlength : "(a pr and b eq\t".length < 64 := by decide
  have hend : Text.trimEnd "(a pr and b eq\t".toList = "(a pr and b eq".toList := by decide
  refine ⟨h, ?_⟩
  rcases startsFilter_of_unexpectedEnd 64 _ hlength h with hstarts | ⟨x, y, -, htext, -⟩
  · exact hend ▸ hstarts
  · have hbracket : ']' ∈ "(a pr and b eq\t".toList := htext ▸ by simp
    exact absurd hbracket (by decide)

/-- Behind the bracket, nothing makes up for the group that is open in front of it. -/
theorem not_startsFilter_bracket :
    parseFilter { maxDepth := 64 } "a[(a pr]" = .error .unexpectedEndOfFilter ∧
      ¬ StartsFilter 64 "a[(a pr]".toList := by
  refine ⟨by rw [← Text.refusal?_eq_some_iff]; decide +kernel, ?_⟩
  intro hstarts
  obtain ⟨u, f, h⟩ := startsFilter_iff.mp hstarts
  obtain ⟨t, tail, rfl, htail, hsolid⟩ := Text.exists_solid_tail (c := ']') (by decide) u
  have htext : "a[(a pr]".toList ++ (t ++ tail) =
      (['a'] ++ '[' :: '(' :: ("a pr".toList ++ ']' :: t)) ++ tail := by simp
  have htrimmed : Text.Trimmed (['a'] ++ '[' :: '(' :: ("a pr".toList ++ ']' :: t)) := by
    have hhead : isBlank 'a' = false := by decide
    refine Text.trimmed_append (by simp) (by simp) (by simpa using hhead) ?_
    exact hsolid.append_of_ne_nil (by simp) "[(a pr".toList
  have hword : ∀ c ∈ ['a'], isWordChar c = true := List.all_eq_true.mp (by decide +kernel)
  have hpath : Path.ofWord ['a'] = .ok (.coreAttribute "a") :=
    Path.ofWord_chars (p := .coreAttribute "a") (by decide +kernel)
  -- the value filter, the group and the condition are read, and the bracket is refused
  have hrun : Reading.start.run { maxDepth := 64 }
      ⟨0, ['a'] ++ '[' :: '(' :: ("a pr".toList ++ ']' :: t)⟩ = .error .unexpectedEndOfFilter := by
    rw [Reading.start, Reading.run_openValue (w := ['a']) rfl
      (Token.read_of_lexes (.valuePath hword)) (by simp) hpath]
    show Reading.run _ ⟨{ bracket := some 0, depth := 1 }, _⟩ _ = _
    rw [Reading.run_openGroup rfl (Token.read_of_lexes (.delimiter rfl))]
    show Reading.run _ ⟨Level.opened { bracket := some 0, depth := 1 } false, _⟩ _ = _
    have hcloses : Closes (Level.opened { bracket := some 0, depth := 1 } false).region
        (']' :: t) := (shuts_bracket t).closes
    rw [Reading.run_shortOperand rfl hcloses,
      Reading.run_closeValue rfl (Token.read_of_lexes (.delimiter rfl))]
    rfl
  rw [htext, parseFilterChars_append_blanks htail, parseFilterChars_of_trimmed htrimmed, hrun] at h
  cases h

end ScimQuery
