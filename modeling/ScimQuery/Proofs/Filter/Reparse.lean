import ScimQuery.Filter.Equality
import ScimQuery.Proofs.Filter.Composition
import ScimQuery.Proofs.Filter.Depth

/-!
# Filter — canonical text under the same limits

A filter that was read is written with parentheses around every `and` and `or`, whether or not
they were in the text it was read from, and with its numbers in their shortest decimals.  So the
canonical text may nest deeper than the text before it, it may be longer, and a number may be read
from it that is not the one it was written for.

* `parseFilter_reparse`: the same limits give back an equal filter exactly if they allow the length
  of the canonical text and its nesting, and the values of the filter survive being read again.
* `parseFilter_thrice`: a limit on nesting that is thrice as high, and two more, is enough for the
  canonical text.
* `exists_nestingTooDeep`: at each limit on nesting there is a text that is read, and whose
  canonical text is refused for its nesting.
-/

namespace ScimQuery

/-! ### What is read back -/

/-- What is inside of a group or a value filter that has been read. -/
theorem Limits.exists_of_deepen {α : Type} {limits : Limits} {depth : Nat}
    {inner : Except Error α} {node : α → Filter} {g : Filter}
    (h : (limits.deepen depth >>= fun _ => node <$> inner) = .ok g) :
    ∃ a, inner = .ok a ∧ node a = g := by
  obtain ⟨-, -, h⟩ := Text.bind_eq_ok_iff.mp h
  exact Text.map_eq_ok_iff.mp h

mutual

/-- What is read back is the filter with its values read again. -/
theorem Filter.reread_of_readBack {limits : Limits} : ∀ {f g : Filter} {depth k : Nat},
    f.readBack limits depth k = .ok g → f.reread = some g
  | .compare op p v, g, depth, k, h => by
      rw [Filter.readBack, Text.map_eq_ok_iff] at h
      obtain ⟨v', hv, rfl⟩ := h
      rw [Filter.reread, Value.readBack_eq_ok_iff.mp hv]
      rfl
  | .present p, g, depth, k, h => by
      cases h
      rfl
  | .and fs, g, depth, k, h => by
      rw [Filter.readBack] at h
      obtain ⟨gs, hgs, rfl⟩ := Limits.exists_of_deepen h
      rw [Filter.reread, Filter.rereadAll_of_readAllBack .and hgs]
      rfl
  | .or fs, g, depth, k, h => by
      rw [Filter.readBack] at h
      obtain ⟨gs, hgs, rfl⟩ := Limits.exists_of_deepen h
      rw [Filter.reread, Filter.rereadAll_of_readAllBack .or hgs]
      rfl
  | .not f, g, depth, k, h => by
      rw [Filter.readBack] at h
      obtain ⟨g, hg, rfl⟩ := Limits.exists_of_deepen h
      rw [Filter.reread, Filter.reread_of_readBack hg]
      rfl
  | .complex p f, g, depth, k, h => by
      rw [Filter.readBack] at h
      obtain ⟨g, hg, rfl⟩ := Limits.exists_of_deepen h
      rw [Filter.reread, Filter.reread_of_readBack hg]
      rfl

theorem Filter.rereadAll_of_readAllBack {limits : Limits} (j : Junction) :
    ∀ {fs gs : List Filter} {depth k : Nat},
      Filter.readAllBack limits j fs depth k = .ok gs → Filter.rereadAll fs = some gs
  | [], gs, depth, k, h => by
      cases h
      rfl
  | f :: fs, gs, depth, k, h => by
      rw [Filter.readAllBack] at h
      obtain ⟨g, hg, h⟩ := Text.bind_eq_ok_iff.mp h
      obtain ⟨more, hmore, h⟩ := Text.bind_eq_ok_iff.mp h
      cases h
      rw [Filter.rereadAll, Filter.reread_of_readBack hg, Filter.rereadAll_of_readAllBack j hmore]
      rfl

end

/-! ### The canonical text of a well-formed filter -/

section

variable {limits : Limits} {f g : Filter}

/-- What the canonical text of a well-formed filter spells. -/
theorem parseFilter_chars_iff (hwf : f.WellFormed) :
    parseFilter limits f.text = .ok g ↔
      limits.Allows f.chars ∧ f.nest ≤ limits.maxDepth ∧ f.reread = some g := by
  constructor
  · intro h
    have hparts := h
    rw [parseFilter, Filter.text, String.toList_ofList, parseFilterChars,
      Text.bind_eq_ok_iff] at hparts
    obtain ⟨c, hopen, hparts⟩ := hparts
    obtain ⟨⟨g', after⟩, hread, hparts⟩ := Text.bind_eq_ok_iff.mp hparts
    cases hparts
    obtain rfl := eq_of_openText (Filter.trimmed_chars hwf) hopen
    rw [Filter.read_chars hwf, Text.map_eq_ok_iff] at hread
    obtain ⟨g, hback, hpair⟩ := hread
    cases hpair
    have hallows := (openText_eq_ok hopen).2
    have hreread := Filter.reread_of_readBack hback
    rw [parseFilter_of_reread hwf hreread hallows] at h
    by_cases hdeep : f.nest ≤ limits.maxDepth
    · exact ⟨hallows, hdeep, hreread⟩
    · rw [if_neg hdeep] at h
      cases h
  · rintro ⟨hallows, hdeep, hreread⟩
    rw [parseFilter_of_reread hwf hreread hallows, if_pos hdeep]

end

/-- **The canonical text of a filter that was read is read as an equal filter** under the same
limits exactly if these allow its length, and as many nodes on a branch as the filter has, and the
filter with its values read again is equal to it. -/
theorem parseFilter_reparse (limits : Limits) (text : String) (f : Filter)
    (h : parseFilter limits text = .ok f) :
    (∃ g, parseFilter limits f.text = .ok g ∧ f.same g = true) ↔
      limits.Allows f.chars ∧ f.nest ≤ limits.maxDepth ∧
        ∃ g, f.reread = some g ∧ f.same g = true := by
  obtain ⟨c, after, hread⟩ := exists_read_of_parseFilter h
  simp only [parseFilter_chars_iff (Filter.read_wellFormed hread)]
  constructor
  · rintro ⟨g, ⟨hallows, hdeep, hreread⟩, hsame⟩
    exact ⟨hallows, hdeep, g, hreread, hsame⟩
  · rintro ⟨hallows, hdeep, g, hreread, hsame⟩
    exact ⟨g, ⟨hallows, hdeep, hreread⟩, hsame⟩

/-- A text whose canonical text is as long as the limit on the length and nests as deep as the
limit on nesting, with a number that is written otherwise and survives. -/
theorem parseFilter_reparse_spaced : ∃ f,
    parseFilter { maxLength := some 19, maxDepth := 1 } "a pr AND  n GT 1.50" = .ok f ∧
      f.text = "(a pr and n gt 1.5)" ∧
      ∃ g, parseFilter { maxLength := some 19, maxDepth := 1 } f.text = .ok g ∧
        f.same g = true := by
  have hparts : (parseFilter { maxLength := some 19, maxDepth := 1 }
      "a pr AND  n GT 1.50").toOption.map
        (fun f => (f.text, f.chars.length, f.nest, f.reread.map f.same)) =
          some ("(a pr and n gt 1.5)", 19, 1, some true) := by decide +kernel
  obtain ⟨f, hf, hparts⟩ := Option.map_eq_some_iff.mp hparts
  simp only [Prod.mk.injEq, Option.map_eq_some_iff] at hparts
  obtain ⟨htext, hlength, hnest, hsurvives⟩ := hparts
  rw [Text.toOption_eq_some_iff] at hf
  have hallows : Limits.Allows { maxLength := some 19, maxDepth := 1 } f.chars := by
    simp [Limits.Allows, hlength]
  exact ⟨f, hf, htext, (parseFilter_reparse _ _ f hf).mpr ⟨hallows, Nat.le_of_eq hnest, hsurvives⟩⟩

/-- **A limit on nesting that is thrice as high, and two more**, accepts the canonical text of a
filter that was read, unless a value is refused. -/
theorem parseFilter_thrice {limits : Limits} {text : String} {f g : Filter}
    (h : parseFilter limits text = .ok f) (hreread : f.reread = some g) :
    parseFilter { maxDepth := 3 * limits.maxDepth + 2 } f.text = .ok g := by
  obtain ⟨c, after, hread⟩ := exists_read_of_parseFilter h
  exact (parseFilter_chars_iff (Filter.read_wellFormed hread)).mpr
    ⟨by simp [Limits.Allows], nest_le_of_parseFilter h, hreread⟩

/-! ### Texts that are read, and canonical texts that are not -/

/-- A text put in parentheses behind `not`, as many times over. -/
def negatedChars (cs : List Char) : Nat → List Char
  | 0 => cs
  | d + 1 => "not".toList ++ ' ' :: '(' :: (negatedChars cs d ++ [')'])

/-- The filter that such a text spells, if `f` is the one of the text itself. -/
def Filter.negated (f : Filter) : Nat → Filter
  | 0 => f
  | d + 1 => .not (f.negated d)

theorem Filter.nest_negated (f : Filter) (d : Nat) : (f.negated d).nest = f.nest + d := by
  induction d with
  | zero => rfl
  | succ d ih => rw [Filter.negated, Filter.nest, ih, Nat.add_assoc]

theorem Filter.WellFormed.negated {f : Filter} (h : f.WellFormed) :
    ∀ d, (f.negated d).WellFormed
  | 0 => h
  | d + 1 => .not (Filter.WellFormed.negated h d)

theorem Filter.DoubleFree.negated {f : Filter} (h : f.DoubleFree) :
    ∀ d, (f.negated d).DoubleFree
  | 0 => h
  | d + 1 => .not (Filter.DoubleFree.negated h d)

theorem trimmed_negatedChars {cs : List Char} (h : Text.Trimmed cs) :
    ∀ d, Text.Trimmed (negatedChars cs d)
  | 0 => h
  | d + 1 => Text.trimmed_cons_concat (by decide) (by decide) ("ot (".toList ++ negatedChars cs d)

theorem Descent.Spells.negated {cs : List Char} {f : Filter} (h : Spells 0 cs f) (d : Nat) :
    Spells d (negatedChars cs d) (f.negated d) := by
  induction d with
  | zero => exact h
  | succ d ih =>
      obtain ⟨m, hm, hterm⟩ := ih.term_negated 0 []
      exact .of_term hterm

/-- A text without parentheses that joins filters, negated as often as the limit on nesting allows:
the parentheses that the canonical text adds are one level too many. -/
theorem parseFilter_negated_text {text : String} {f : Filter} (htrim : Text.Trimmed text.toList)
    (h : parseFilter { maxDepth := 0 } text = .ok f) (hdf : f.DoubleFree) (hnest : 0 < f.nest)
    (d : Nat) :
    parseFilter { maxDepth := d } (String.ofList (negatedChars text.toList d)) =
        .ok (f.negated d) ∧
      parseFilter { maxDepth := d } (f.negated d).text = .error (.nestingTooDeep d) := by
  obtain ⟨c, after, hread⟩ := exists_read_of_parseFilter h
  have hwf := (Filter.read_wellFormed hread).negated d
  have hspells := ((Descent.parseFilter_iff_spells htrim).mp h).negated d
  have htrim' : Text.Trimmed (String.ofList (negatedChars text.toList d)).toList := by
    rw [String.toList_ofList]
    exact trimmed_negatedChars htrim d
  constructor
  · rw [Descent.parseFilter_iff_spells htrim', String.toList_ofList]
    exact hspells
  · rw [parseFilter_of_reread hwf (hdf.negated d).reread (by simp [Limits.Allows]), if_neg]
    rw [Filter.nest_negated]
    exact Nat.not_le.mpr (Nat.lt_add_of_pos_left hnest)

/-- **At each limit on nesting** there is a text that is read, and whose canonical text nests too
deep to be read. -/
theorem exists_nestingTooDeep (d : Nat) : ∃ f,
    parseFilter { maxDepth := d } (String.ofList (negatedChars "a pr and b pr".toList d)) = .ok f ∧
      parseFilter { maxDepth := d } f.text = .error (.nestingTooDeep d) := by
  have hparts : (parseFilter { maxDepth := 0 } "a pr and b pr").toOption.map
      (fun f => (f.nest, decide f.DoubleFree)) = some (1, true) := by decide +kernel
  obtain ⟨f, hf, hparts⟩ := Option.map_eq_some_iff.mp hparts
  obtain ⟨hnest, hdf⟩ := Prod.mk.inj hparts
  rw [Text.toOption_eq_some_iff] at hf
  exact ⟨f.negated d, parseFilter_negated_text (by decide) hf (of_decide_eq_true hdf) (by omega) d⟩

/-- Three ways in which the canonical text of a filter that was read is not read as an equal one:
it nests deeper than the limits allow, it is longer, and it has a number that is read as another
one. -/
theorem parseFilter_reparse_fails :
    (∃ f, parseFilter {} (String.ofList (negatedChars "a pr and b pr".toList 64)) = .ok f ∧
      parseFilter {} f.text = .error (.nestingTooDeep 64)) ∧
    (∃ f, parseFilter { maxLength := some 13 } "a pr and b pr" = .ok f ∧
      parseFilter { maxLength := some 13 } f.text = .error (.inputTooLong 15 13)) ∧
    ∃ f g, parseFilter {} "a eq 1.2e31" = .ok f ∧ parseFilter {} f.text = .ok g ∧
      f.same g = false := by
  have hlong : (parseFilter { maxLength := some 13 } "a pr and b pr").toOption.map
      (fun f => Text.refusal? (parseFilter { maxLength := some 13 } f.text)) =
        some (some (.inputTooLong 15 13)) := by decide +kernel
  have hnumber : (parseFilter {} "a eq 1.2e31").toOption.map
      (fun f => (parseFilter {} f.text).toOption.map f.same) = some (some false) := by
    decide +kernel
  refine ⟨exists_nestingTooDeep 64, ?_, ?_⟩
  · obtain ⟨f, hf, herror⟩ := Option.map_eq_some_iff.mp hlong
    rw [Text.toOption_eq_some_iff] at hf
    rw [Text.refusal?_eq_some_iff] at herror
    exact ⟨f, hf, herror⟩
  · obtain ⟨f, hf, hsame⟩ := Option.map_eq_some_iff.mp hnumber
    obtain ⟨g, hg, hsame⟩ := Option.map_eq_some_iff.mp hsame
    rw [Text.toOption_eq_some_iff] at hf hg
    exact ⟨f, g, hf, hg, hsame⟩

end ScimQuery
