import ScimQuery.Proofs.Filter.ReadBack

/-!
# Filter — canonical text is read back

The canonical text of a well-formed filter without binary64 numbers is read back as that very
filter, as long as its nodes do not nest deeper than the limit, and is refused for its depth
otherwise (`parseFilter_text`).

What is read from the text of a filter is the same filter with its values read again
(`Filter.reread`), where the limit allows its nodes to nest as they do
(`Filter.readBack_of_reread`).  Without binary64 numbers this is the filter itself.
-/

namespace ScimQuery

mutual

/-- The largest number of nodes that join, negate or narrow on a branch of a filter. -/
def Filter.nest : Filter → Nat
  | .compare _ _ _ => 0
  | .present _ => 0
  | .and operands => Filter.nestAll operands + 1
  | .or operands => Filter.nestAll operands + 1
  | .not operand => operand.nest + 1
  | .complex _ filter => filter.nest + 1

/-- The largest of these numbers among some filters. -/
def Filter.nestAll : List Filter → Nat
  | [] => 0
  | f :: fs => max f.nest (Filter.nestAll fs)

end

/-- No comparison value of the filter is a binary64 number. -/
inductive Filter.DoubleFree : Filter → Prop where
  | compare {op : Operator} {p : Path} {v : Value} :
      (∀ d, v ≠ .number (.double d)) → DoubleFree (.compare op p v)
  | present {p : Path} : DoubleFree (.present p)
  | and {fs : List Filter} : (∀ f ∈ fs, DoubleFree f) → DoubleFree (.and fs)
  | or {fs : List Filter} : (∀ f ∈ fs, DoubleFree f) → DoubleFree (.or fs)
  | not {f : Filter} : DoubleFree f → DoubleFree (.not f)
  | complex {p : Path} {f : Filter} : DoubleFree f → DoubleFree (.complex p f)

mutual

/-- Are there no binary64 numbers in the filter? -/
def Filter.decideDoubleFree : (f : Filter) → Decidable f.DoubleFree
  | .compare _ _ (.number (.double d)) => .isFalse fun | .compare hv => hv d rfl
  | .compare _ _ (.number (.whole _)) => .isTrue (.compare nofun)
  | .compare _ _ .null => .isTrue (.compare nofun)
  | .compare _ _ (.bool _) => .isTrue (.compare nofun)
  | .compare _ _ (.string _) => .isTrue (.compare nofun)
  | .present _ => .isTrue .present
  | .and fs =>
      have := Filter.decideAllDoubleFree fs
      decidable_of_iff (∀ f ∈ fs, f.DoubleFree) ⟨.and, fun | .and hfs => hfs⟩
  | .or fs =>
      have := Filter.decideAllDoubleFree fs
      decidable_of_iff (∀ f ∈ fs, f.DoubleFree) ⟨.or, fun | .or hfs => hfs⟩
  | .not f =>
      have := f.decideDoubleFree
      decidable_of_iff f.DoubleFree ⟨.not, fun | .not hf => hf⟩
  | .complex _ f =>
      have := f.decideDoubleFree
      decidable_of_iff f.DoubleFree ⟨.complex, fun | .complex hf => hf⟩

/-- Are there none in all the filters? -/
def Filter.decideAllDoubleFree : (fs : List Filter) → Decidable (∀ f ∈ fs, f.DoubleFree)
  | [] => .isTrue (by simp)
  | f :: fs =>
      have := f.decideDoubleFree
      have := Filter.decideAllDoubleFree fs
      decidable_of_iff (f.DoubleFree ∧ ∀ g ∈ fs, g.DoubleFree) List.forall_mem_cons.symm

end

instance (f : Filter) : Decidable f.DoubleFree := f.decideDoubleFree

/-! ### Values that are read again -/

/-- The value that is read from the text of a value, if it is not refused. -/
def Value.reread (v : Value) : Option Value :=
  match Literal.scan v.chars with
  | .ok (some l) => some l.value
  | _ => none

mutual

/-- The filter with each of its values read again from the text of the value. -/
def Filter.reread : Filter → Option Filter
  | .compare op p v => .compare op p <$> v.reread
  | .present p => some (.present p)
  | .and fs => .and <$> Filter.rereadAll fs
  | .or fs => .or <$> Filter.rereadAll fs
  | .not f => .not <$> f.reread
  | .complex p f => .complex p <$> f.reread

/-- The same with each of some filters. -/
def Filter.rereadAll : List Filter → Option (List Filter)
  | [] => some []
  | f :: fs => do
      let g ← f.reread
      let gs ← Filter.rereadAll fs
      return g :: gs

end

theorem Value.readBack_eq_ok_iff {v v' : Value} {k : Nat} :
    v.readBack k = .ok v' ↔ v.reread = some v' := by
  unfold Value.readBack Phrase.readValue Value.reread
  cases Literal.scan v.chars with
  | error fault => simp [Functor.map, Except.map]
  | ok found =>
      cases found with
      | none => simp [Functor.map, Except.map]
      | some l => simp [Functor.map, Except.map]

theorem Value.reread_of_not_double {v : Value} (hv : ∀ d, v ≠ .number (.double d)) :
    v.reread = some v := by
  have hscan := @Literal.scan_chars v hv [] (by simp)
  rw [List.append_nil] at hscan
  rw [Value.reread, hscan]

mutual

theorem Filter.DoubleFree.reread : ∀ {f : Filter}, f.DoubleFree → f.reread = some f
  | .compare op p v, .compare hv => by
      rw [Filter.reread, Value.reread_of_not_double hv]
      rfl
  | .present p, _ => rfl
  | .and fs, .and hfs => by
      rw [Filter.reread, Filter.DoubleFree.rereadAll hfs]
      rfl
  | .or fs, .or hfs => by
      rw [Filter.reread, Filter.DoubleFree.rereadAll hfs]
      rfl
  | .not f, .not hf => by
      rw [Filter.reread, hf.reread]
      rfl
  | .complex p f, .complex hf => by
      rw [Filter.reread, hf.reread]
      rfl

theorem Filter.DoubleFree.rereadAll : ∀ {fs : List Filter}, (∀ f ∈ fs, f.DoubleFree) →
    Filter.rereadAll fs = some fs
  | [], _ => rfl
  | f :: fs, h => by
      obtain ⟨hf, hfs⟩ := List.forall_mem_cons.mp h
      rw [Filter.rereadAll, hf.reread, Filter.DoubleFree.rereadAll hfs]
      rfl

end

/-! ### What is read back, from the values that are read again -/

section

variable {limits : Limits} {depth k : Nat}

/-- What opens a group or a value filter, from what is inside. -/
theorem Limits.deepen_bind {α : Type} {inner : Except Error α} {a : α} {n : Nat} (node : α → Filter)
    (h : depth + 1 ≤ limits.maxDepth →
      inner = if depth + 1 + n ≤ limits.maxDepth then .ok a
        else .error (.nestingTooDeep limits.maxDepth)) :
    (limits.deepen depth >>= fun _ => node <$> inner) =
      if depth + (n + 1) ≤ limits.maxDepth then .ok (node a)
      else .error (.nestingTooDeep limits.maxDepth) := by
  rw [Limits.deepen]
  by_cases hopen : limits.maxDepth ≤ depth
  · rw [if_pos hopen, if_neg (by omega)]
    rfl
  · rw [if_neg hopen, h (Nat.lt_of_not_le hopen)]
    by_cases hdeep : depth + 1 + n ≤ limits.maxDepth
    · rw [if_pos hdeep, if_pos (by omega)]
      rfl
    · rw [if_neg hdeep, if_neg (by omega)]
      rfl

mutual

/-- **The text of a filter is read as the filter with its values read again**, unless the filter
nests too deep. -/
theorem Filter.readBack_of_reread : ∀ {f g : Filter} {depth k : Nat}, f.reread = some g →
    depth ≤ limits.maxDepth →
      f.readBack limits depth k =
        if depth + f.nest ≤ limits.maxDepth then .ok g
        else .error (.nestingTooDeep limits.maxDepth)
  | .compare op p v, g, depth, k, h, hfits => by
      obtain ⟨v', hv, rfl⟩ := Option.map_eq_some_iff.mp h
      rw [Filter.readBack, Value.readBack_eq_ok_iff.mpr hv]
      exact (if_pos hfits).symm
  | .present p, g, depth, k, h, hfits => by
      cases h
      exact (if_pos hfits).symm
  | .and fs, g, depth, k, h, _ => by
      obtain ⟨gs, hgs, rfl⟩ := Option.map_eq_some_iff.mp h
      rw [Filter.readBack]
      exact Limits.deepen_bind .and fun hfits => Filter.readAllBack_of_reread .and hgs hfits
  | .or fs, g, depth, k, h, _ => by
      obtain ⟨gs, hgs, rfl⟩ := Option.map_eq_some_iff.mp h
      rw [Filter.readBack]
      exact Limits.deepen_bind .or fun hfits => Filter.readAllBack_of_reread .or hgs hfits
  | .not f, g, depth, k, h, _ => by
      obtain ⟨g, hg, rfl⟩ := Option.map_eq_some_iff.mp h
      rw [Filter.readBack]
      exact Limits.deepen_bind .not fun hfits => Filter.readBack_of_reread hg hfits
  | .complex p f, g, depth, k, h, _ => by
      obtain ⟨g, hg, rfl⟩ := Option.map_eq_some_iff.mp h
      rw [Filter.readBack]
      exact Limits.deepen_bind (.complex p) fun hfits => Filter.readBack_of_reread hg hfits

theorem Filter.readAllBack_of_reread (j : Junction) : ∀ {fs gs : List Filter} {depth k : Nat},
    Filter.rereadAll fs = some gs → depth ≤ limits.maxDepth →
      Filter.readAllBack limits j fs depth k =
        if depth + Filter.nestAll fs ≤ limits.maxDepth then .ok gs
        else .error (.nestingTooDeep limits.maxDepth)
  | [], gs, depth, k, h, hfits => by
      cases h
      exact (if_pos hfits).symm
  | f :: fs, gs, depth, k, h, hfits => by
      obtain ⟨g, hg, h⟩ := Option.bind_eq_some_iff.mp h
      obtain ⟨more, hmore, h⟩ := Option.bind_eq_some_iff.mp h
      cases h
      have hnest : Filter.nestAll (f :: fs) = max f.nest (Filter.nestAll fs) := rfl
      -- the first filter that nests too deep is refused before the others are read
      rw [Filter.readAllBack, Filter.readBack_of_reread hg hfits,
        Filter.readAllBack_of_reread j hmore hfits, hnest]
      by_cases hdeep : depth + f.nest ≤ limits.maxDepth
      · by_cases hdeep' : depth + Filter.nestAll fs ≤ limits.maxDepth
        · rw [if_pos hdeep, if_pos hdeep', if_pos (by omega)]
          rfl
        · rw [if_pos hdeep, if_neg hdeep', if_neg (by omega)]
          rfl
      · have hall : ¬ depth + max f.nest (Filter.nestAll fs) ≤ limits.maxDepth := by omega
        rw [if_neg hdeep, if_neg hall]
        rfl

end

end

/-! ### Whole texts -/

theorem Json.isBlank_of_isNumeralChar {c : Char} (h : isNumeralChar c = true) :
    Text.isBlank c = false := by
  have hnone : ∀ n < 58, 48 ≤ n → Text.inRanges Text.blankRanges n = false := by decide
  unfold isNumeralChar at h
  simp only [Bool.or_eq_true, beq_iff_eq] at h
  rcases h with (((hdigit | rfl) | rfl) | rfl) | rfl
  · have hrange : '0' ≤ c ∧ c ≤ '9' := by simpa [isDigit] using hdigit
    have hlo : 48 ≤ c.toNat := UInt32.le_iff_toNat_le.mp hrange.1
    have hhi : c.toNat ≤ 57 := UInt32.le_iff_toNat_le.mp hrange.2
    exact hnone c.toNat (by omega) hlo
  all_goals decide

/-- No blank ends the text of a value. -/
theorem Value.getLast_chars (v : Value) :
    v.chars ≠ [] ∧ ∀ c ∈ v.chars.getLast?, Text.isBlank c = false := by
  cases v with
  | null => exact ⟨by decide, (by decide : Text.Trimmed Value.null.chars).2⟩
  | bool b =>
      have htrim : Text.Trimmed (Value.bool b).chars := by cases b <;> decide
      exact ⟨by cases b <;> decide, htrim.2⟩
  | string s =>
      rw [Literal.string_chars]
      refine ⟨by simp, ?_⟩
      rw [← List.cons_append, List.getLast?_concat]
      simpa using (by decide : Text.isBlank '"' = false)
  | number n =>
      cases n with
      | double d =>
          rw [Literal.double_chars]
          refine ⟨d.chars_ne_nil, ?_⟩
          intro c hc
          exact Json.isBlank_of_isNumeralChar
            (Number.Double.isNumeralChar_of_mem (List.mem_of_getLast? hc))
      | whole w =>
          rw [Literal.whole_chars]
          refine ⟨Json.intChars_ne_nil w.val, ?_⟩
          intro c hc
          refine Json.isBlank_of_isNumeralChar ?_
          rcases Json.mem_intChars (List.mem_of_getLast? hc) with rfl | hdigit
          · decide
          · exact Json.isNumeralChar_of_isDigit hdigit

/-- No blank is around the text of a filter. -/
theorem Filter.trimmed_chars : ∀ {f : Filter}, f.WellFormed → Text.Trimmed f.chars
  | .compare op p v, .compare hp _ => by
      obtain ⟨hne, hhead⟩ := hp.head_chars
      obtain ⟨hvne, hlast⟩ := v.getLast_chars
      have hparts : (Filter.compare op p v).chars =
          (p.chars ++ ' ' :: (op.keyword.toList ++ [' '])) ++ v.chars := by
        rw [Filter.chars_compare]
        simp
      rw [hparts]
      refine Text.trimmed_append (by simp) hvne ?_ hlast
      rwa [List.head?_append_of_ne_nil p.chars hne]
  | .present p, .present hp _ => by
      obtain ⟨hne, hhead⟩ := hp.head_chars
      rw [Filter.chars_present]
      exact Text.trimmed_append hne (by simp) hhead
        (by simpa [Operator.presentKeyword] using (by decide : Text.isBlank 'r' = false))
  | .and fs, _ => by
      rw [Filter.chars_and]
      exact Text.trimmed_cons_concat (by decide) (by decide) _
  | .or fs, _ => by
      rw [Filter.chars_or]
      exact Text.trimmed_cons_concat (by decide) (by decide) _
  | .not f, _ => by
      rw [Filter.chars_not]
      exact Text.trimmed_cons_concat (by decide) (by decide) ("ot(".toList ++ f.chars)
  | .complex p f, .complex hp _ => by
      rw [Filter.chars_complex]
      exact hp.trimmed_value f.chars

/-- What the canonical text of a filter spells, where no value of it is refused. -/
theorem parseFilter_of_reread {limits : Limits} {f g : Filter} (hwf : f.WellFormed)
    (h : f.reread = some g) (hallows : limits.Allows f.chars) :
    parseFilter limits f.text =
      if f.nest ≤ limits.maxDepth then .ok g else .error (.nestingTooDeep limits.maxDepth) := by
  have hopen := openText_of_allows (Filter.trimmed_chars hwf) hallows
  have hread : Filter.read limits ⟨0, f.chars⟩ =
      if f.nest ≤ limits.maxDepth then .ok (g, ⟨f.chars.length, []⟩)
      else .error (.nestingTooDeep limits.maxDepth) := by
    rw [Filter.read_chars hwf, Filter.readBack_of_reread h (Nat.zero_le _), Nat.zero_add]
    split <;> rfl
  simp only [parseFilter, parseFilterChars, Filter.text, String.toList_ofList, hopen]
  by_cases hdeep : f.nest ≤ limits.maxDepth
  · rw [if_pos hdeep] at hread ⊢
    simp only [bind, Except.bind, hread, pure, Except.pure]
  · rw [if_neg hdeep] at hread ⊢
    simp only [bind, Except.bind, hread]

/-- **The canonical text of a filter is read back as that filter** if the limit allows as many
nodes on a branch as it has, and is refused for its depth otherwise. -/
theorem parseFilter_text (f : Filter) (d : Nat) (hwf : f.WellFormed) (hdf : f.DoubleFree) :
    parseFilter { maxDepth := d } f.text =
      if f.nest ≤ d then .ok f else .error (.nestingTooDeep d) :=
  parseFilter_of_reread hwf hdf.reread (by simp [Limits.Allows])

/-- A filter with every kind of node and with delimiters and keywords inside a string, and what a
lower limit makes of its text. -/
theorem parseFilter_text_nested : ∃ f : Filter,
    f.text = "((name.first eq \"\\\")] or (\" or urn:x:b pr) and not(emails[n gt 3]))" ∧
      f.WellFormed ∧ f.DoubleFree ∧
      parseFilter { maxDepth := 3 } f.text = .ok f ∧
      parseFilter { maxDepth := 2 } f.text = .error (.nestingTooDeep 2) := by
  have hwf : (Filter.and [
      .or [.compare .eq ((Path.root none).sub "name" |>.sub "first") (.string "\")] or ("),
        .present ((Path.root (some "urn:x")).sub "b")],
      .not (.complex ((Path.root none).sub "emails")
        (.compare .gt ((Path.root none).sub "n") (.number (.whole ⟨3, by decide⟩))))]).WellFormed :=
    by decide +kernel
  refine ⟨_, by decide +kernel, hwf, by decide +kernel, ?_, ?_⟩
  · rw [parseFilter_text _ 3 hwf (by decide +kernel)]
    rfl
  · rw [parseFilter_text _ 2 hwf (by decide +kernel)]
    rfl

end ScimQuery
