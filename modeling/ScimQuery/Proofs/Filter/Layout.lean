import Mathlib.Logic.Relation
import ScimQuery.Proofs.Filter.Derivation

/-!
# Filter — layout

The spaces between the words and brackets of a filter and the case of its keywords do not matter.
A change of layout (`Relaid`) adds or takes away a space where a space, a parenthesis or a bracket
stands, or writes a keyword in other letters.  Which words are keywords depends on where they stand:
what is due behind some atoms of a filter is told by going through them (`Due.behind`).

* `Text.atoms_strip_gap`: a space more or less makes no atoms.
* `Phrase.MadeOf.alike`, `Reading.Derives.alike`: a phrase, and from it, by induction, a filter is
  made of its keywords in any case.
* `parseFilter_relaid`: whole texts.
-/

namespace ScimQuery

open Text (Atom Splitting EndsWord atoms isBlank isKeyword sameLetters)

/-! ### Texts without the blanks around them -/

namespace Text

variable {x y w : List Char}

theorem strip_append_blanks (hy : ∀ c ∈ y, isBlank c = true) : strip (x ++ y) = strip x := by
  rw [strip, trimEnd_append_blanks x hy, strip]

theorem strip_blanks_append (hx : ∀ c ∈ x, isBlank c = true) : strip (x ++ y) = strip y := by
  rw [strip, trimEnd_blanks_append y hx]
  split
  · rename_i hempty
    rw [strip, hempty]
  · rw [List.dropWhile_append_of_pos hx, strip]

/-- Only the blanks at the end of the second part are dropped, unless it is nothing else. -/
theorem trimEnd_append (x : List Char) (hy : trimEnd y ≠ []) :
    trimEnd (x ++ y) = x ++ trimEnd y := by
  rw [trimEnd, dropEnd, Ne, List.reverse_eq_nil_iff] at hy
  simp [trimEnd, dropEnd, List.dropWhile_append, hy]

theorem dropWhile_append (hx : x.dropWhile isBlank ≠ []) (y : List Char) :
    (x ++ y).dropWhile isBlank = x.dropWhile isBlank ++ y := by
  simp [List.dropWhile_append, hx]

theorem strip_append (hx : x.dropWhile isBlank ≠ []) (hy : trimEnd y ≠ []) :
    strip (x ++ y) = x.dropWhile isBlank ++ trimEnd y := by
  rw [strip, trimEnd_append x hy, dropWhile_append hx]

theorem isBlank_of_trimEnd (h : trimEnd y = []) : ∀ c ∈ y, isBlank c = true := by
  obtain ⟨tail, hy, htail⟩ := exists_blank_tail y
  rw [h, List.nil_append] at hy
  rwa [hy]

/-- A word between two parts. -/
theorem strip_word (hne : w ≠ []) (hw : ∀ c ∈ w, isBlank c = false) (x y : List Char) :
    strip (x ++ (w ++ y)) = x.dropWhile isBlank ++ (w ++ trimEnd y) := by
  have hhead : ∀ c ∈ (w ++ trimEnd y).head?, isBlank c = false := by
    intro c hc
    rw [List.head?_append_of_ne_nil _ hne] at hc
    exact hw c (List.mem_of_head? hc)
  have hend : trimEnd (w ++ y) = w ++ trimEnd y := by
    by_cases hy : trimEnd y = []
    · have htrimmed : Trimmed w :=
        ⟨fun c hc => hw c (List.mem_of_head? hc), fun c hc => hw c (List.mem_of_getLast? hc)⟩
      rw [trimEnd_append_blanks w (isBlank_of_trimEnd hy), hy, List.append_nil,
        trimEnd_of_trimmed htrimmed]
    · exact trimEnd_append w hy
  have hne' : trimEnd (w ++ y) ≠ [] := by simp [hend, hne]
  rw [strip, trimEnd_append x hne', hend]
  by_cases hx : x.dropWhile isBlank = []
  · rw [hx, List.dropWhile_append_of_pos (List.dropWhile_eq_nil_iff.mp hx)]
    exact dropWhile_run (w := []) (by simp) hhead
  · exact dropWhile_append hx _

end Text

/-! ### What a word stands as -/

/-- What is due behind some atoms of a filter. -/
inductive Due where
  | operand
  | operator
  | value
  | junction
  deriving DecidableEq

namespace Due

/-- What is due behind one more atom. -/
def next : Due → Atom → Due
  | .operand, .word w => if isKeyword w "not" then .operand else .operator
  | .operand, _ => .operand
  | .operator, .word w => if isKeyword w Operator.presentKeyword then .junction else .value
  | .operator, _ => .operator
  | .value, .blank _ => .value
  | .value, _ => .junction
  | .junction, .word _ => .operand
  | .junction, _ => .junction

/-- Does the word stand as a keyword, and not as a path or a value, where this is due? -/
def takesKeyword : Due → List Char → Bool
  | .operand, w => isKeyword w "not"
  | .operator, _ => true
  | .value, _ => false
  | .junction, _ => true

/-- What is due behind atoms from the start of a filter on. -/
def behind (as : List Atom) : Due :=
  as.foldl next .operand

/-- What is due in a state of reading between two phrases. -/
def ofOperand : Bool → Due
  | true => .operand
  | false => .junction

end Due

/-- The atoms are the same but for the case of the keywords. -/
inductive Alike : Due → List Atom → List Atom → Prop where
  | nil {due : Due} : Alike due [] []
  | same {due : Due} {a : Atom} {as bs : List Atom} :
      Alike (due.next a) as bs → Alike due (a :: as) (a :: bs)
  | recased {due : Due} {w w' : List Char} {as bs : List Atom} :
      due.takesKeyword w = true → sameLetters w w' = true → Alike (due.next (.word w)) as bs →
        Alike due (.word w :: as) (.word w' :: bs)

namespace Alike

theorem refl (due : Due) (as : List Atom) : Alike due as as := by
  induction as generalizing due with
  | nil => exact .nil
  | cons a as ih => exact .same (ih _)

/-- One keyword in other letters. -/
theorem recase {w w' : List Char} (h : sameLetters w w' = true) (bs : List Atom) :
    ∀ {due : Due} (as : List Atom), (as.foldl Due.next due).takesKeyword w = true →
      Alike due (as ++ .word w :: bs) (as ++ .word w' :: bs)
  | _, [], hkeyword => .recased hkeyword h (.refl _ bs)
  | _, _ :: as, hkeyword => .same (recase h bs as hkeyword)

theorem of_word {due : Due} {w : List Char} {as cs : List Atom} (h : Alike due (.word w :: as) cs) :
    ∃ w' bs, cs = .word w' :: bs ∧ sameLetters w w' = true ∧
      (due.takesKeyword w = false → w' = w) ∧ Alike (due.next (.word w)) as bs := by
  cases h with
  | same h => exact ⟨w, _, rfl, beq_self_eq_true _, fun _ => rfl, h⟩
  | recased hkeyword hletters h =>
      refine ⟨_, _, rfl, hletters, fun hno => ?_, h⟩
      rw [hno] at hkeyword
      cases hkeyword

theorem of_mark {due : Due} {c : Char} {as cs : List Atom} (h : Alike due (.mark c :: as) cs) :
    ∃ bs, cs = .mark c :: bs ∧ Alike (due.next (.mark c)) as bs := by
  cases h with
  | same h => exact ⟨_, rfl, h⟩

end Alike

/-- The atoms of a comparison value keep their case. -/
theorem Value.MadeOf.alike {v : Value} {as bs cs : List Atom} (h : v.MadeOf as)
    (halike : Alike .value (as ++ bs) cs) : ∃ ds, cs = as ++ ds ∧ Alike .junction bs ds := by
  induction h generalizing cs with
  | blank _ _ _ ih =>
      cases halike with
      | same halike =>
          obtain ⟨ds, rfl, hds⟩ := ih halike
          exact ⟨ds, rfl, hds⟩
  | word =>
      cases halike with
      | same halike => exact ⟨_, rfl, halike⟩
      | recased hkeyword => cases hkeyword
  | quoted =>
      cases halike with
      | same halike => exact ⟨_, rfl, halike⟩

/-! ### Phrases and filters -/

namespace Phrase

/-- Is an operand due behind the phrase? -/
def leavesDue : Phrase → Bool
  | .openGroup _ => true
  | .openValue _ _ => true
  | .join _ => true
  | _ => false

variable {region : Region} {due : Bool} {phrase : Phrase} {as bs cs : List Atom}

/-- **A phrase is made of its keywords in any case.** -/
theorem MadeOf.alike (h : MadeOf region due phrase as)
    (halike : Alike (.ofOperand due) (as ++ bs) cs) :
    ∃ as' bs', cs = as' ++ bs' ∧ MadeOf region due phrase as' ∧
      Alike (.ofOperand phrase.leavesDue) bs bs' := by
  have hnext {w : List Char} (hnot : isKeyword w "not" = false) :
      (Due.ofOperand true).next (.word w) = .operator := if_neg (by simp [hnot])
  cases h with
  | openGroup =>
      obtain ⟨ds, rfl, hds⟩ := halike.of_mark
      exact ⟨_, ds, rfl, .openGroup, hds⟩
  | @openNegated w hw hnot =>
      obtain ⟨w', ds, rfl, hletters, -, hds⟩ := halike.of_word
      have hdue : (Due.ofOperand true).next (.word w) = .operand := if_pos hnot
      rw [hdue] at hds
      obtain ⟨es, rfl, hes⟩ := hds.of_mark
      rw [Text.isKeyword_congr hletters] at hnot
      exact ⟨[.word w', .mark '('], es, rfl, .openNegated (hw.sameLetters hletters) hnot, hes⟩
  | @present w o path hw hnot hpath ho hpresent =>
      obtain ⟨w', ds, rfl, -, hsame, hds⟩ := halike.of_word
      obtain rfl : w' = w := hsame hnot
      rw [hnext hnot] at hds
      obtain ⟨o', es, rfl, hletters, -, hes⟩ := hds.of_word
      have hjunction : Due.next .operator (.word o) = .junction := if_pos hpresent
      rw [hjunction] at hes
      rw [Text.isKeyword_congr hletters] at hpresent
      exact ⟨[.word w', .word o'], es, rfl,
        .present hw hnot hpath (ho.sameLetters hletters) hpresent, hes⟩
  | @compare w o path op v as hw hnot hpath ho hpresent hop hvalue =>
      obtain ⟨w', ds, rfl, -, hsame, hds⟩ := halike.of_word
      obtain rfl : w' = w := hsame hnot
      rw [hnext hnot] at hds
      obtain ⟨o', es, rfl, hletters, -, hes⟩ := hds.of_word
      have hdue : Due.next .operator (.word o) = .value := if_neg (by simp [hpresent])
      rw [hdue] at hes
      obtain ⟨fs, rfl, hfs⟩ := hvalue.alike hes
      rw [Text.isKeyword_congr hletters] at hpresent
      rw [Operator.ofKeyword?_congr hletters] at hop
      exact ⟨.word w' :: .word o' :: as, fs, rfl,
        .compare hw hnot hpath (ho.sameLetters hletters) hpresent hop hvalue, hfs⟩
  | openValue hw hne hpath =>
      cases halike with
      | same halike => exact ⟨_, _, rfl, .openValue hw hne hpath, halike⟩
  | join hw hkeyword =>
      obtain ⟨w', ds, rfl, hletters, -, hds⟩ := halike.of_word
      rw [Text.isKeyword_congr hletters] at hkeyword
      exact ⟨[.word w'], ds, rfl, .join (hw.sameLetters hletters) hkeyword, hds⟩
  | closeGroup =>
      obtain ⟨ds, rfl, hds⟩ := halike.of_mark
      exact ⟨_, ds, rfl, .closeGroup, hds⟩
  | closeValue hregion =>
      obtain ⟨ds, rfl, hds⟩ := halike.of_mark
      exact ⟨_, ds, rfl, .closeValue hregion, hds⟩

end Phrase

theorem Level.operandDue_closeGroup {l l' : Level} {position : Nat}
    (h : l.closeGroup position = .ok l') : l'.operandDue = l.operandDue := by
  obtain ⟨_, _, _, _, -, -, rfl⟩ := closeGroup_cases h
  rfl

namespace Reading

variable {limits : Limits} {r r' : Reading} {phrase : Phrase} {f : Filter} {as bs : List Atom}

/-- A step leads to where an operand is due or not as its phrase says. -/
theorem operandDue_of_step {region : Region} (hmade : phrase.MadeOf region r.level.operandDue as)
    (h : r.step limits phrase = .ok (.more r')) : r'.level.operandDue = phrase.leavesDue := by
  generalize hdue : r.level.operandDue = due at hmade
  cases step_eq_more_iff.mp h with
  | operand => rfl
  | openGroup => cases hmade <;> exact hdue
  | closeGroup hclose =>
      cases hmade
      exact (Level.operandDue_closeGroup hclose).trans hdue
  | join hjoin => exact (Level.join_cases hjoin).1
  | openValue => rfl
  | closeValue => rfl

/-- **A filter is made of its keywords in any case.** -/
theorem Derives.alike (h : Derives limits f r as)
    (halike : Alike (.ofOperand r.level.operandDue) as bs) : Derives limits f r bs := by
  induction h generalizing bs with
  | ended hfinish =>
      cases halike
      exact .ended hfinish
  | phrase hmade hstep _ ih =>
      obtain ⟨as', bs', rfl, hmade', hrest⟩ := hmade.alike halike
      rw [← operandDue_of_step hmade hstep] at hrest
      exact .phrase hmade' hstep (ih hrest)

end Reading

/-! ### Changes of layout -/

section

variable {x y w w' : List Char}

/-- Where a text has been taken apart up to the end of its part `x`, if the blanks in front of the
text do not count. -/
def Text.reach (x : List Char) : Splitting :=
  .after .between (x.dropWhile isBlank)

/-- One change of the layout of a filter, outside of strings. -/
inductive Relaid : List Char → List Char → Prop where
  /-- A space more between two parts. -/
  | space {x y : List Char} : (Text.reach x).quoting = .outside → Text.Gap x y →
      Relaid (x ++ y) (x ++ ' ' :: y)
  /-- A space less between two parts. -/
  | unspace {x y : List Char} : (Text.reach x).quoting = .outside → Text.Gap x y →
      Relaid (x ++ ' ' :: y) (x ++ y)
  /-- A whole word that stands as a keyword, in other letters. -/
  | recase {x w w' y : List Char} : Text.reach x = .between → (Token.word w).Spelled →
      EndsWord (Text.trimEnd y) →
        (Due.behind (atoms (x.dropWhile isBlank))).takesKeyword w = true →
          sameLetters w w' = true → Relaid (x ++ (w ++ y)) (x ++ (w' ++ y))

theorem Text.Gap.core (h : Gap x y) (hx : x.dropWhile isBlank ≠ []) (hy : trimEnd y ≠ []) :
    Gap (x.dropWhile isBlank) (trimEnd y) := by
  refine h.imp ?_ ?_
  · rintro ⟨c, hc, hmem⟩
    refine ⟨c, ?_, hmem⟩
    rwa [← List.takeWhile_append_dropWhile (p := isBlank) (l := x),
      List.getLast?_append_of_ne_nil _ hx] at hc
  · rintro ⟨c, hc, hmem⟩
    refine ⟨c, ?_, hmem⟩
    obtain ⟨tail, htail, -⟩ := exists_blank_tail y
    rwa [htail, List.head?_append_of_ne_nil _ hy] at hc

/-- A space in a gap of a text makes no atoms, be it in front of the text, behind it or inside. -/
theorem Text.atoms_strip_gap (houtside : (reach x).quoting = .outside) (hgap : Gap x y) :
    atoms (strip (x ++ ' ' :: y)) = atoms (strip (x ++ y)) := by
  have hspace : ∀ c ∈ [' '], isBlank c = true := List.forall_mem_singleton.mpr (by decide)
  by_cases hx : x.dropWhile isBlank = []
  · have hblank := List.dropWhile_eq_nil_iff.mp hx
    rw [strip_blanks_append hblank, strip_blanks_append hblank]
    exact congrArg atoms (strip_blanks_append hspace)
  by_cases hy : trimEnd y = []
  · have hblank := isBlank_of_trimEnd hy
    rw [strip_append_blanks hblank,
      strip_append_blanks (List.forall_mem_cons.mpr ⟨by decide, hblank⟩)]
  have hend : trimEnd (' ' :: y) = ' ' :: trimEnd y := trimEnd_append [' '] hy
  rw [strip_append hx hy, strip_append hx (by simp [hend]), hend]
  exact Splitting.atoms_gap houtside (hgap.core hx hy)

/-- The atoms of a text, around one of its words. -/
theorem Text.atoms_strip_word (hw : (Token.word w).Spelled) (hreach : reach x = .between)
    (hends : EndsWord (trimEnd y)) :
    atoms (strip (x ++ (w ++ y))) =
      atoms (x.dropWhile isBlank) ++ .word w :: atoms (trimEnd y) := by
  rw [strip_word hw.1 (fun c hc => isBlank_eq_false (hw.2 c hc))]
  refine (Splitting.atoms_append_of_between hreach _).trans ?_
  exact congrArg _ (atoms_word hw.1 (fun c hc => isSolid_of_isWordChar (hw.2 c hc)) hends)

/-- **One change of layout** leaves the atoms of a text as they are, but for the case of a
keyword. -/
theorem Relaid.alike (h : Relaid x y) :
    Alike .operand (atoms (Text.strip x)) (atoms (Text.strip y)) := by
  cases h with
  | space houtside hgap =>
      rw [Text.atoms_strip_gap houtside hgap]
      exact .refl _ _
  | unspace houtside hgap =>
      rw [Text.atoms_strip_gap houtside hgap]
      exact .refl _ _
  | recase hreach hw hends hkeyword hletters =>
      rw [Text.atoms_strip_word hw hreach hends,
        Text.atoms_strip_word (hw.sameLetters hletters) hreach hends]
      exact .recase hletters _ _ hkeyword

end

/-- **Layout and the case of keywords do not matter.** -/
theorem parseFilter_relaid (d : Nat) (text text' : String) (f : Filter)
    (h : parseFilter { maxDepth := d } text = .ok f)
    (hrelaid : Relation.ReflTransGen Relaid text.toList text'.toList) :
    parseFilter { maxDepth := d } text' = .ok f := by
  have hstep {x y : List Char} (hx : parseFilterChars { maxDepth := d } x = .ok f)
      (hxy : Relaid x y) : parseFilterChars { maxDepth := d } y = .ok f := by
    rw [parseFilterChars_eq_ok_iff] at hx ⊢
    exact hx.alike hxy.alike
  unfold parseFilter at h ⊢
  generalize text'.toList = cs at hrelaid ⊢
  induction hrelaid with
  | refl => exact h
  | tail _ hlast ih => exact hstep ih hlast

/-- A space less in front of a parenthesis, one more in front of a string that holds one, and a
keyword in capitals. -/
theorem parseFilter_relaid_not :
    ∃ f, parseFilter {} "not (a eq \"b (\")" = .ok f ∧
      parseFilter {} "NOT(a eq  \"b (\")" = .ok f := by
  have hparse : (parseFilter {} "not (a eq \"b (\")").toOption.isSome = true := by decide +kernel
  obtain ⟨f, hf⟩ := Option.isSome_iff_exists.mp hparse
  rw [Text.toOption_eq_some_iff] at hf
  have hcapitals : Relaid ([] ++ ("not".toList ++ " (a eq \"b (\")".toList))
      ([] ++ ("NOT".toList ++ " (a eq \"b (\")".toList)) :=
    .recase rfl not_word (by decide +kernel) (by decide) (by decide)
  have hless : Relaid ("NOT".toList ++ ' ' :: "(a eq \"b (\")".toList)
      ("NOT".toList ++ "(a eq \"b (\")".toList) :=
    .unspace rfl (.inr ⟨'(', by decide, by decide⟩)
  have hmore : Relaid ("NOT(a eq ".toList ++ "\"b (\")".toList)
      ("NOT(a eq ".toList ++ ' ' :: "\"b (\")".toList) :=
    .space rfl (.inl ⟨' ', by decide, by decide⟩)
  have hrelaid : Relation.ReflTransGen Relaid "not (a eq \"b (\")".toList
      "NOT(a eq  \"b (\")".toList :=
    .head hcapitals (.head hless (.single hmore))
  exact ⟨f, hf, parseFilter_relaid 64 _ _ f hf hrelaid⟩

end ScimQuery
