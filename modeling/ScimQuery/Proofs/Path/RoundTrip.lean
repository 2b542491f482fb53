import ScimQuery.Proofs.Filter.RoundTrip
import ScimQuery.Proofs.Path.Readable

/-!
# Path — canonical text is read back

The canonical text of a path that was read is read back as that very path (`parsePath_text`), if
no value in its value filters is a binary64 number and the limit allows the nodes of each of them
to nest as they do inside a pair of brackets.

The path reader and the reader of filters take turns on one text.  Each of them comes to the place
behind what it has read, whatever follows there: the reader of filters to that behind the bracket
(`Filter.readsBack`), the path reader to that behind the dot (`Path.readFrom_chars`).
-/

namespace ScimQuery

open Text (Cursor bind_eq_ok_iff)

/-! ### Value filters -/

/-- A value filter that is read is well-formed. -/
theorem Filter.readWithin_wellFormed {limits : Limits} {opened : Nat} {c : Cursor}
    {found : Filter × { d : Cursor // d.rest.length ≤ c.rest.length }}
    (h : Filter.readWithin limits opened c = .ok found) : found.1.WellFormed := by
  obtain ⟨f, next, hnext⟩ := found
  obtain ⟨-, hrun⟩ := Filter.readWithin_eq_ok_iff.mp h
  exact Reading.run_wellFormed ⟨fun _ h => absurd h (by simp), fun _ h => absurd h (by simp)⟩ hrun

/-- A value filter is read back from its text and the bracket behind it. -/
theorem Filter.readsBack {f : Filter} (hwf : f.WellFormed) (hdf : f.DoubleFree) {limits : Limits}
    (hdeep : 1 + f.nest ≤ limits.maxDepth) : (Filter.readWithin limits).ReadsBack f := by
  intro opened k s
  refine ⟨?_, Filter.readWithin_eq_ok_iff.mpr ⟨by omega, ?_⟩⟩
  · simp only [List.length_append, List.length_cons]
    omega
  have hrun := @Reading.run_chars limits f hwf { bracket := some opened, depth := 1 } [] k
    (']' :: s) rfl (by simp [Closes, Level.region])
  have hback : f.readBack limits 1 k = .ok f := by
    rw [Filter.readBack_of_reread hdf.reread (by omega), if_pos hdeep]
  have hclose : Reading.run limits
      ⟨({ bracket := some opened, depth := 1 } : Level).push f, []⟩
      ⟨k + f.chars.length, ']' :: s⟩ = .ok (f, ⟨k + f.chars.length + 1, s⟩) :=
    Reading.run_closeValue rfl (Token.read_of_lexes (.delimiter rfl))
  rw [hrun]
  simp only [Level.nesting, Nat.add_zero, hback]
  exact hclose

/-! ### Whole texts -/

namespace Path

variable {P : Filter → Prop} {p : Path} {name : String}

/-- The text of a path up to the name of a further attribute. -/
theorem stem_eq (p : Path) : p.stem = p.chars ++ if p.isRoot then [] else ['.'] := by
  cases p with
  | root urn => cases urn <;> simp [chars, write, stem, writeStem, isRoot]
  | sub p name => simp [stem_sub, chars_sub, isRoot]
  | subWhere p name f => simp [stem_subWhere, chars_subWhere, isRoot]

theorem IsName.not_isBlank (h : IsName name) : ∀ c ∈ name.toList, Text.isBlank c = false := by
  intro c hc
  exact Text.isBlank_eq_false (h.isWordChar c hc)

/-- No blank starts a text whose parts no blank starts. -/
theorem head_append_not_isBlank {cs ds : List Char} (hcs : ∀ c ∈ cs.head?, Text.isBlank c = false)
    (hds : ∀ c ∈ ds.head?, Text.isBlank c = false) :
    ∀ c ∈ (cs ++ ds).head?, Text.isBlank c = false := by
  cases cs with
  | nil => exact hds
  | cons c cs => simpa using hcs

/-- No blank starts a path up to the name of a further attribute. -/
theorem head_stem_not_isBlank (hp : ∀ c ∈ p.chars.head?, Text.isBlank c = false) :
    ∀ c ∈ p.stem.head?, Text.isBlank c = false := by
  rw [stem_eq]
  refine head_append_not_isBlank hp ?_
  cases p.isRoot
  · simpa using (by decide : Text.isBlank '.' = false)
  · simp

/-- No blank is around the text of a readable path. -/
theorem Readable.trimmed_chars (h : p.Readable P) : Text.Trimmed p.chars := by
  induction h with
  | resource => exact (by decide : Text.Trimmed [])
  | @extension urn hschema =>
      have hword : ∀ c ∈ urn.toList ++ [':'], Text.isBlank c = false := by
        intro c hc
        exact Text.isBlank_eq_false (hschema.stem_word c hc)
      exact ⟨fun c hc => hword c (List.mem_of_mem_head? hc),
        fun c hc => hword c (List.mem_of_getLast? hc)⟩
  | @sub p name _ htakes ih =>
      have hname := htakes.isName.not_isBlank
      rw [chars_sub]
      constructor
      · exact head_append_not_isBlank (head_stem_not_isBlank ih.1)
          fun c hc => hname c (List.mem_of_mem_head? hc)
      · rw [List.getLast?_append_of_ne_nil _ htakes.isName.toList_ne_nil]
        exact fun c hc => hname c (List.mem_of_getLast? hc)
  | @subWhere p name f _ htakes _ ih =>
      have hname := htakes.isName.not_isBlank
      have hbracket : Text.Trimmed ('[' :: (f.chars ++ [']'])) :=
        Text.trimmed_cons_concat (by decide) (by decide) f.chars
      rw [chars_subWhere, ← List.append_assoc]
      constructor
      · refine head_append_not_isBlank ?_ hbracket.1
        exact head_append_not_isBlank (head_stem_not_isBlank ih.1)
          fun c hc => hname c (List.mem_of_mem_head? hc)
      · rw [List.getLast?_append_of_ne_nil _ (by simp)]
        exact hbracket.2

/-- What is read from a whole text is readable. -/
theorem readable_of_parsePath {limits : Limits} {text : String}
    (h : parsePath limits text = .ok p) : p.Readable Filter.WellFormed := by
  obtain ⟨c, -, h⟩ := bind_eq_ok_iff.mp h
  obtain ⟨⟨q, after⟩, hread, h⟩ := bind_eq_ok_iff.mp h
  cases h
  have hstart : Resumes Filter.WellFormed c none := trivial
  exact readFrom_readable (fun h => Filter.readWithin_wellFormed h) hstart hread

end Path

/-- **The canonical text of a path that was read is read back as that path**, if no value in its
value filters is a binary64 number and the limit allows each of them in a pair of brackets. -/
theorem parsePath_text (limits : Limits) (text : String) (p : Path)
    (h : parsePath limits text = .ok p) (hdf : ∀ e ∈ p.elements, ∀ f ∈ e.2, f.DoubleFree)
    (d : Nat) (hdeep : ∀ e ∈ p.elements, ∀ f ∈ e.2, 1 + f.nest ≤ d) :
    parsePath { maxDepth := d } p.text = .ok p := by
  have hreads : p.Readable (Filter.readWithin { maxDepth := d }).ReadsBack := by
    obtain ⟨hreadable, hwf⟩ := Path.readable_iff_elements.mp (Path.readable_of_parsePath h)
    refine Path.readable_iff_elements.mpr ⟨hreadable, ?_⟩
    intro e he f hf
    exact Filter.readsBack (hwf e he f hf) (hdf e he f hf) (hdeep e he f hf)
  rw [parsePath, Path.text, String.toList_ofList, parsePathChars,
    openText_of_trimmed hreads.trimmed_chars]
  simp only [bind, Except.bind, Path.readFrom_chars 0 hreads]
  rfl

/-- Two value filters, with a bracket in a string and a colon in front of a bracket.  The text has
fewer parentheses than the canonical one. -/
theorem parsePath_text_narrowed : ∃ p,
    parsePath { maxDepth := 3 } "urn:a:e[n eq 1 and (b co \"]\" or not (c pr))].f:[d pr].g" =
        .ok p ∧
      p.text = "urn:a:e[(n eq 1 and (b co \"]\" or not(c pr)))].f:[d pr].g" ∧
      (∀ e ∈ p.elements, ∀ f ∈ e.2, f.DoubleFree) ∧
      (∀ e ∈ p.elements, ∀ f ∈ e.2, 1 + f.nest ≤ 4) ∧
      parsePath { maxDepth := 4 } p.text = .ok p := by
  have hread : (parsePath { maxDepth := 3 }
      "urn:a:e[n eq 1 and (b co \"]\" or not (c pr))].f:[d pr].g").toOption.map (fun p =>
        (p.text, decide (∀ e ∈ p.elements, ∀ f ∈ e.2, f.DoubleFree),
          decide (∀ e ∈ p.elements, ∀ f ∈ e.2, 1 + f.nest ≤ 4))) =
      some ("urn:a:e[(n eq 1 and (b co \"]\" or not(c pr)))].f:[d pr].g", true, true) := by
    decide +kernel
  obtain ⟨p, hp, hfacts⟩ := Option.map_eq_some_iff.mp hread
  rw [Text.toOption_eq_some_iff] at hp
  simp only [Prod.mk.injEq, decide_eq_true_eq] at hfacts
  obtain ⟨htext, hdf, hdeep⟩ := hfacts
  exact ⟨p, hp, htext, hdf, hdeep, parsePath_text _ _ p hp hdf 4 hdeep⟩

end ScimQuery
