import ScimQuery.Proofs.Filter.Balance
import ScimQuery.Proofs.Filter.Local
import ScimQuery.Proofs.Filter.Places

/-!
# Filter — what completes a filter

Wherever reading has come to, the filter can be completed (`Reading.Viable`): by a junction unless
an operand is due, by an operand, and by the closing characters of all that is open.  In the middle
of a phrase (`Phrase.Begun`), the phrase is completed first.

* `Reading.Sound.run_closers`: the closing characters end a filter after an operand.
* `Reading.Sound.viable`, `Reading.Sound.viable_begun`: a filter can be completed in front of a
  phrase, and in the middle of one.

What completes a filter comes after a space, and ends with a character that is no blank
(`Text.Solid`), so that a word in front of it has come to its end, and that it is itself read to its
end.
-/

namespace ScimQuery

open Text (Cursor isBlank isWordChar isKeyword)

/-! ### The last character -/

/-- There is no blank at the end of the text. -/
def Text.Solid (cs : List Char) : Prop :=
  ∀ c ∈ cs.getLast?, isBlank c = false

namespace Text

instance (cs : List Char) : Decidable (Solid cs) :=
  decidable_of_iff (cs.getLast?.all (fun c => !isBlank c) = true)
    (by simp [Solid, Option.all_eq_true])

/-- Only the end counts. -/
theorem Solid.append_of_ne_nil {ds : List Char} (hds : Solid ds) (hne : ds ≠ []) (cs : List Char) :
    Solid (cs ++ ds) := by
  rwa [Solid, List.getLast?_append_of_ne_nil _ hne]

theorem Solid.append {cs ds : List Char} (hcs : Solid cs) (hds : Solid ds) : Solid (cs ++ ds) := by
  by_cases hne : ds = []
  · rwa [hne, List.append_nil]
  · exact hds.append_of_ne_nil hne cs

theorem solid_of_forall {cs : List Char} (h : ∀ c ∈ cs, isBlank c = false) : Solid cs :=
  fun c hc => h c (List.mem_of_getLast? hc)

end Text

/-! ### Spaces -/

theorem Json.isSpace_replicate (n : Nat) : ∀ e ∈ List.replicate n ' ', isSpace e = true := by
  intro e he
  rw [List.eq_of_mem_replicate he]
  rfl

theorem Token.read_replicate (region : Region) (p n : Nat) (cs : List Char) :
    Token.read region ⟨p, List.replicate n ' ' ++ cs⟩ = Token.read region ⟨p + n, cs⟩ := by
  rw [Token.read_spaces (fun c hc => List.eq_of_mem_replicate hc), List.length_replicate]

namespace Reading

variable {limits : Limits} {base : Nat} {r : Reading} {l : Level} {outer : List (Path × Level)}

theorem run_replicate (r : Reading) (p n : Nat) (cs : List Char) :
    r.run limits ⟨p, List.replicate n ' ' ++ cs⟩ = r.run limits ⟨p + n, cs⟩ := by
  induction n generalizing p with
  | zero => rfl
  | succ n ih =>
      rw [List.replicate_succ, List.cons_append, ← run_pastSpace, Cursor.pastSpace_space, ih,
        Nat.add_assoc, Nat.add_comm 1]

/-! ### Closing what is open -/

/-- The characters that close all groups and value filters that are open. -/
def closers : Level → List (Path × Level) → List Char
  | l, [] => List.replicate l.openGroups ')'
  | l, (_, suspended) :: outer =>
    List.replicate l.openGroups ')' ++ ']' :: closers suspended outer

theorem closers_push (l : Level) (outer : List (Path × Level)) (f : Filter) :
    closers (l.push f) outer = closers l outer := by
  cases outer <;> rfl

theorem eq_of_mem_closers {c : Char} : ∀ {outer : List (Path × Level)} {l : Level},
    c ∈ closers l outer → c = ')' ∨ c = ']'
  | [], l, h => .inl (List.eq_of_mem_replicate h)
  | (_, suspended) :: outer, l, h => by
      rcases List.mem_append.mp h with h | h
      · exact .inl (List.eq_of_mem_replicate h)
      · rcases List.mem_cons.mp h with rfl | h
        · exact .inr rfl
        · exact eq_of_mem_closers h

theorem solid_closers (l : Level) (outer : List (Path × Level)) : Text.Solid (closers l outer) := by
  refine Text.solid_of_forall ?_
  intro c hc
  rcases eq_of_mem_closers hc with rfl | rfl <;> decide

/-- A level with levels around it is read between brackets. -/
theorem Sound.region_inside {e : Path × Level} (h : Sound base ⟨l, e :: outer⟩) :
    l.region = .valueFilter := by
  have hstacked : l.Stacked base (e :: outer) := h.stacked
  cases hstacked with
  | inside htracked hdepth _ =>
      have hbracket : l.bracket ≠ none := by
        intro hnone
        have := htracked.bracket.mp hnone
        omega
      rw [Level.region, if_pos (Option.isSome_iff_ne_none.mpr hbracket)]

/-- The closing characters end every word and every value. -/
theorem Sound.closes_closers (h : Sound base ⟨l, outer⟩) : Closes l.region (closers l outer) := by
  intro d hd
  right
  cases outer with
  | nil => exact .inl (List.eq_of_mem_replicate (List.mem_of_mem_head? hd))
  | cons e outer =>
      rw [h.region_inside]
      rcases eq_of_mem_closers (List.mem_of_mem_head? hd) with rfl | rfl
      · exact .inl rfl
      · exact .inr ⟨rfl, rfl⟩

/-- After an operand, the groups that are open are closed one by one. -/
theorem Sound.run_groups (limits : Limits) : ∀ (n : Nat) {l : Level}, Sound base ⟨l, outer⟩ →
    l.operandDue = false → l.openGroups = n → ∀ p, ∃ l', Sound base ⟨l', outer⟩ ∧
      l'.operandDue = false ∧ l'.openGroups = 0 ∧ ∀ cs,
        run limits ⟨l, outer⟩ ⟨p, List.replicate n ')' ++ cs⟩ =
          run limits ⟨l', outer⟩ ⟨p + n, cs⟩
  | 0, l, h, hdue, hopen, p => ⟨l, h, hdue, hopen, fun _ => rfl⟩
  | n + 1, l, h, hdue, hopen, p => by
      have hne : l.openGroups ≠ 0 := by omega
      obtain ⟨l₁, hclose, -, hdue₁, -, hopen₁⟩ :=
        h.level.closeGroup_ok h.stacked.tracked hdue hne p
      have hopen₁' : l₁.openGroups = n := by
        rw [hopen₁]
        exact Nat.sub_eq_of_eq_add hopen
      have htoken (cs : List Char) : Token.read l.region ⟨p, ')' :: cs⟩ =
          .ok (some ⟨.closeParen, p, ⟨p + 1, cs⟩⟩) :=
        Token.read_of_lexes (.delimiter rfl)
      have hstep : Reading.step limits ⟨l, outer⟩ (.closeGroup p) = .ok (.more ⟨l₁, outer⟩) := by
        simp only [Reading.step, hclose]
        rfl
      have h₁ : Sound base ⟨l₁, outer⟩ := h.step hdue (.closeGroup (htoken [])) hstep
      obtain ⟨l', h', hdue', hopen', hrun⟩ := h₁.run_groups limits n hdue₁ hopen₁' (p + 1)
      refine ⟨l', h', hdue', hopen', ?_⟩
      intro cs
      rw [List.replicate_succ, List.cons_append, run_closeGroup hdue (htoken _), hclose]
      show run limits ⟨l₁, outer⟩ _ = _
      rw [hrun, Nat.add_assoc, Nat.add_comm 1]

/-- After an operand, a value filter in which no group is open is closed. -/
theorem Sound.run_bracket {path : Path} {suspended : Level} (limits : Limits)
    (h : Sound base ⟨l, (path, suspended) :: outer⟩) (hdue : l.operandDue = false)
    (hopen : l.openGroups = 0) (p : Nat) :
    ∃ f, Sound base ⟨suspended.push (.complex path f), outer⟩ ∧ ∀ cs,
      run limits ⟨l, (path, suspended) :: outer⟩ ⟨p, ']' :: cs⟩ =
        run limits ⟨suspended.push (.complex path f), outer⟩ ⟨p + 1, cs⟩ := by
  obtain ⟨f, hfinish⟩ := h.level.finish_ok h.stacked.tracked hdue hopen
  have htoken (cs : List Char) : Token.read l.region ⟨p, ']' :: cs⟩ =
      .ok (some ⟨.closeBracket, p, ⟨p + 1, cs⟩⟩) := by
    rw [h.region_inside]
    exact Token.read_of_lexes (.delimiter rfl)
  have hclose : (⟨l, (path, suspended) :: outer⟩ : Reading).closeValue =
      .ok (.more ⟨suspended.push (.complex path f), outer⟩) := by
    simp only [closeValue, hfinish]
    rfl
  have hstep : Reading.step limits ⟨l, (path, suspended) :: outer⟩ .closeValue = _ := hclose
  refine ⟨f, h.step hdue (.closeValue (htoken [])) hstep, ?_⟩
  intro cs
  rw [run_closeValue hdue (htoken cs), hclose]
  rfl

/-- **After an operand, the closing characters of all that is open complete the filter.** -/
theorem Sound.run_closers : ∀ {outer : List (Path × Level)} {l : Level}, Sound 0 ⟨l, outer⟩ →
    l.operandDue = false → ∀ p, ∃ found, run limits ⟨l, outer⟩ ⟨p, closers l outer⟩ = .ok found
  | [], l, h, hdue, p => by
      obtain ⟨l', h', hdue', hopen', hrun⟩ := h.run_groups limits l.openGroups hdue rfl p
      obtain ⟨f, hfinish⟩ := h'.level.finish_ok h'.stacked.tracked hdue' hopen'
      have hbracket : l'.bracket = none := by
        have hstacked : l'.Stacked 0 [] := h'.stacked
        cases hstacked with
        | outermost htracked hdepth => exact htracked.bracket.mpr hdepth
      have hend : (⟨l', []⟩ : Reading).finish = .ok f := by
        simp only [finish, hbracket, hfinish]
      refine ⟨(f, ⟨p + l.openGroups, []⟩), ?_⟩
      have hnil := hrun []
      rw [List.append_nil] at hnil
      rw [closers, hnil, run_end (Token.read_eq_none_iff.mpr (by simp)), hend]
      rfl
  | (path, suspended) :: outer, l, h, hdue, p => by
      obtain ⟨l', h', hdue', hopen', hrun⟩ := h.run_groups limits l.openGroups hdue rfl p
      obtain ⟨f, hafter, hbracket⟩ := h'.run_bracket limits hdue' hopen' (p + l.openGroups)
      rw [closers, hrun, hbracket, ← closers_push]
      exact hafter.run_closers rfl (p + l.openGroups + 1)

/-! ### In front of a phrase -/

/-- Behind what has been read and the beginning `v` of a phrase, spaces and some text complete the
filter. -/
def Viable (limits : Limits) (r : Reading) (v : List Char) : Prop :=
  ∃ u, u ≠ [] ∧ Text.Solid u ∧
    ∀ p n, ∃ found, r.run limits ⟨p, v ++ (List.replicate (n + 1) ' ' ++ u)⟩ = .ok found

/-- Behind an operand that is due, the closing characters complete the filter. -/
theorem Sound.run_pushed (h : Sound 0 ⟨l, outer⟩) (hdue : l.operandDue = true) (f : Filter)
    (p : Nat) : ∃ found, run limits ⟨l.push f, outer⟩ ⟨p, closers l outer⟩ = .ok found := by
  rw [← closers_push l outer f]
  exact (h.push hdue f).run_closers rfl p

/-- A short operand where one is due. -/
theorem run_shortOperand (hdue : l.operandDue = true) {tail : List Char}
    (htail : Closes l.region tail) (p : Nat) :
    run limits ⟨l, outer⟩ ⟨p, "a pr".toList ++ tail⟩ =
      run limits ⟨l.push (.present (.coreAttribute "a")), outer⟩ ⟨p + 4, tail⟩ := by
  have hwf : (Filter.present (.coreAttribute "a")).WellFormed := by decide +kernel
  have hchars : (Filter.present (.coreAttribute "a")).chars = "a pr".toList := by decide +kernel
  rw [← hchars]
  exact run_chars hwf l outer p tail hdue htail

/-- An operand that is due, and the closing characters, complete the filter. -/
theorem Sound.run_operand (h : Sound 0 ⟨l, outer⟩) (hdue : l.operandDue = true) (p : Nat) :
    ∃ found, run limits ⟨l, outer⟩ ⟨p, "a pr".toList ++ closers l outer⟩ = .ok found := by
  rw [run_shortOperand hdue h.closes_closers]
  exact h.run_pushed hdue _ _

/-- **Wherever a phrase may start, the filter can be completed.** -/
theorem Sound.viable (h : r.Sound 0) (limits : Limits) : r.Viable limits [] := by
  obtain ⟨l, outer⟩ := r
  cases hdue : l.operandDue with
  | true =>
      refine ⟨"a pr".toList ++ closers l outer, by simp, ?_, ?_⟩
      · exact Text.Solid.append (by decide) (solid_closers l outer)
      · intro p n
        rw [List.nil_append, run_replicate]
        exact h.run_operand hdue _
  | false =>
      -- a junction makes an operand due
      obtain ⟨l', hjoin, -, hdue', -⟩ := h.level.join_ok hdue .or
      obtain ⟨hne, hword⟩ := Junction.or.keyword_word
      have htoken (p : Nat) (cs : List Char) :
          Token.read l.region ⟨p, Junction.or.keyword.toList ++ ' ' :: cs⟩ = _ :=
        Token.read_spaced p hne hword
      have hstep : Reading.step limits ⟨l, outer⟩ (.join .or) = .ok (.more ⟨l', outer⟩) := by
        simp only [Reading.step, hjoin]
        rfl
      have h' : Sound 0 ⟨l', outer⟩ := h.step hdue (.join (htoken 0 []) (by decide)) hstep
      refine ⟨Junction.or.keyword.toList ++ ' ' :: ("a pr".toList ++ closers l' outer),
        by simp [hne], ?_, ?_⟩
      · refine Text.Solid.append (by decide) ?_
        have hsolid : Text.Solid " a pr".toList := by decide
        exact hsolid.append (solid_closers l' outer)
      · intro p n
        rw [List.nil_append, run_replicate, run_join (j := .or) hdue (htoken _ _) (by decide),
          hjoin]
        exact h'.run_operand hdue' _

end Reading

/-! ### In the middle of a phrase -/

/-- The beginning of a phrase, up to the end of one of its tokens, where it may still go on. -/
inductive Phrase.Begun : Bool → List Char → Prop where
  | start {due : Bool} : Begun due []
  | negation {n : Nat} {w : List Char} : (Token.word w).Spelled → isKeyword w "not" = true →
      Begun true (List.replicate n ' ' ++ w)
  | named {n : Nat} {w : List Char} {path : Path} : (Token.word w).Spelled →
      isKeyword w "not" = false → Path.ofWord w = .ok path →
        Begun true (List.replicate n ' ' ++ w)
  | operator {n m : Nat} {w o : List Char} {path : Path} {op : Operator} :
      (Token.word w).Spelled → isKeyword w "not" = false → Path.ofWord w = .ok path →
        (Token.word o).Spelled → isKeyword o Operator.presentKeyword = false →
          Operator.ofKeyword? o = some op →
            Begun true (List.replicate n ' ' ++ w ++ (List.replicate (m + 1) ' ' ++ o))

namespace Reading

variable {limits : Limits} {r : Reading} {l : Level} {outer : List (Path × Level)}

/-- A word behind spaces, in front of more spaces. -/
theorem read_word_spaced {region : Region} {w : List Char} (hw : (Token.word w).Spelled)
    (p n m : Nat) (cs : List Char) :
    Token.read region ⟨p, List.replicate n ' ' ++ (w ++ (List.replicate (m + 1) ' ' ++ cs))⟩ =
      .ok (some ⟨.word w, p + n, ⟨p + n + w.length + 1, List.replicate m ' ' ++ cs⟩⟩) := by
  obtain ⟨hne, hword⟩ := hw
  rw [Token.read_replicate, List.replicate_succ, List.cons_append]
  exact Token.read_spaced (p + n) hne hword

/-- A condition on an attribute where an operand is due, and the closing characters behind it. -/
theorem Sound.run_condition {w : List Char} {k p : Nat} {c next : Cursor} {f : Filter}
    (h : Sound 0 ⟨l, outer⟩) (hdue : l.operandDue = true)
    (htoken : Token.read l.region c = .ok (some ⟨.word w, k, next⟩))
    (hnot : isKeyword w "not" = false)
    (hcondition : Phrase.ReadsCondition l.region w k next f
      (Cursor.pastSpace ⟨p, closers l outer⟩)) :
    ∃ found, run limits ⟨l, outer⟩ c = .ok found := by
  rw [Reading.run_operand hdue htoken hnot (Phrase.readCondition_eq_ok_iff.mpr hcondition),
    run_pastSpace]
  exact h.run_pushed hdue f p

/-- Behind `not`, a group is opened. -/
theorem Sound.viable_negation (h : Sound 0 ⟨l, outer⟩) (hdue : l.operandDue = true)
    (hdepth : l.nesting < limits.maxDepth) {n : Nat} {w : List Char}
    (hw : (Token.word w).Spelled) (hnot : isKeyword w "not" = true) :
    Viable limits ⟨l, outer⟩ (List.replicate n ' ' ++ w) := by
  obtain ⟨u, hne, hsolid, hu⟩ := (h.opened true).viable limits
  refine ⟨'(' :: ' ' :: u, by simp, ?_, ?_⟩
  · exact hsolid.append_of_ne_nil hne ['(', ' ']
  · intro p m
    have hparen (q : Nat) : Token.read l.region ⟨q, List.replicate m ' ' ++ '(' :: ' ' :: u⟩ =
        .ok (some ⟨.openParen, q + m, ⟨q + m + 1, ' ' :: u⟩⟩) := by
      rw [Token.read_replicate]
      exact Token.read_of_lexes (.delimiter rfl)
    rw [List.append_assoc, run_openNegated hdue (read_word_spaced hw p n m _) hnot (hparen _),
      Level.openGroup_eq, if_neg (Nat.not_le.mpr hdepth)]
    exact hu _ 0

/-- Behind the word of an attribute, the condition is that it is there. -/
theorem Sound.viable_named (h : Sound 0 ⟨l, outer⟩) (hdue : l.operandDue = true) {n : Nat}
    {w : List Char} {path : Path} (hw : (Token.word w).Spelled)
    (hnot : isKeyword w "not" = false) (hpath : Path.ofWord w = .ok path) :
    Viable limits ⟨l, outer⟩ (List.replicate n ' ' ++ w) := by
  obtain ⟨hne, hword⟩ := presentKeyword_word
  refine ⟨Operator.presentKeyword.toList ++ closers l outer, by simp [hne], ?_, ?_⟩
  · exact Text.Solid.append (by decide) (solid_closers l outer)
  · intro p m
    have hpresent (q : Nat) : Token.read l.region
        ⟨q, List.replicate m ' ' ++ (Operator.presentKeyword.toList ++ closers l outer)⟩ =
        .ok (some ⟨.word Operator.presentKeyword.toList, q + m,
          Cursor.pastSpace ⟨q + m + Operator.presentKeyword.toList.length, closers l outer⟩⟩) := by
      rw [Token.read_replicate]
      exact Token.read_word (q + m) hne hword h.closes_closers.ends
    have hpath' : Phrase.readPath w (p + n) = .ok path := by rw [Phrase.readPath, hpath]
    rw [List.append_assoc]
    exact h.run_condition hdue (read_word_spaced hw p n m _) hnot
      (.present hpath' (hpresent _) (by decide))

/-- Behind an operator, a value is compared with. -/
theorem Sound.viable_operator (h : Sound 0 ⟨l, outer⟩) (hdue : l.operandDue = true) {n m : Nat}
    {w o : List Char} {path : Path} {op : Operator} (hw : (Token.word w).Spelled)
    (hnot : isKeyword w "not" = false) (hpath : Path.ofWord w = .ok path)
    (ho : (Token.word o).Spelled) (hpresent : isKeyword o Operator.presentKeyword = false)
    (hop : Operator.ofKeyword? o = some op) :
    Viable limits ⟨l, outer⟩
      (List.replicate n ' ' ++ w ++ (List.replicate (m + 1) ' ' ++ o)) := by
  have hjudge : Literal.judge (Literal.extent ("true".toList ++ closers l outer)) =
      .ok (.bool true, "true".toList) := by
    obtain ⟨c, cs, hchars, -, hjudge⟩ := Literal.judge_chars (v := .bool true) (by simp)
      h.closes_closers.isEnd
    have htrue : Value.chars (.bool true) = "true".toList := by decide
    rwa [← List.cons_append, ← hchars, htrue] at hjudge
  refine ⟨"true".toList ++ closers l outer, by simp, ?_, ?_⟩
  · exact Text.Solid.append (by decide) (solid_closers l outer)
  · intro p k
    have hvalue (q : Nat) := Phrase.readValue_spelled (p := q) (Json.isSpace_replicate k)
      (by decide) hjudge
    have hop' (q : Nat) : Token.read l.region _ = _ :=
      read_word_spaced ho q m k ("true".toList ++ closers l outer)
    have hpath' : Phrase.readPath w (p + n) = .ok path := by rw [Phrase.readPath, hpath]
    simp only [List.append_assoc] at hvalue ⊢
    exact h.run_condition hdue (read_word_spaced hw p n m _) hnot
      (.compare hpath' (hop' _) hpresent hop (hvalue _))

/-- **In the middle of a phrase, the filter can be completed**, if one more group may be opened. -/
theorem Sound.viable_begun (h : r.Sound 0) (hdepth : r.level.nesting < limits.maxDepth)
    {v : List Char} (hv : Phrase.Begun r.level.operandDue v) : r.Viable limits v := by
  obtain ⟨l, outer⟩ := r
  generalize hdue : (⟨l, outer⟩ : Reading).level.operandDue = due at hv
  cases hv with
  | start => exact h.viable limits
  | negation hw hnot => exact h.viable_negation hdue hdepth hw hnot
  | named hw hnot hpath => exact h.viable_named hdue hw hnot hpath
  | operator hw hnot hpath ho hpresent hop =>
      exact h.viable_operator hdue hw hnot hpath ho hpresent hop

end Reading

end ScimQuery
