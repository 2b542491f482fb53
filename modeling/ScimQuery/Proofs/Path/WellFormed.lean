import ScimQuery.Filter.Canonical
import ScimQuery.Proofs.Path.Schema
import ScimQuery.Proofs.Text.Runs

/-!
# Path — well-formed paths

A path is well-formed (`Path.WellFormed`) when its text can be the word of a condition: it
narrows no attribute, its names are made of name characters, a colon ends none of them but the
last, and its schema, or the lack of one, can be told from its first name.

* `wellFormed_root`, `wellFormed_sub_root`, `wellFormed_sub_sub`: a path is well-formed by its
  steps, which is what every induction on a path uses.
* `WellFormed.chars_word`: the text of a well-formed path is a word, and not the empty one.
-/

namespace ScimQuery.Path

open Text (isNameChar isWordChar)

/-- A name of an attribute: not empty, and made of name characters. -/
def IsName (name : String) : Prop :=
  name ≠ "" ∧ ∀ c ∈ name.toList, isNameChar c = true

/-- The schema can be told from the text: one that is there starts with `urn:` when its colon is
written, and the first name has no colon that could be taken for the last one; one that is not
there is not read into the first name. -/
def SchemaFits : Option String → Option String → Prop
  | some urn, first =>
      (∀ c ∈ urn.toList, isNameChar c = true) ∧ hasSchema (urn.toList ++ [':']) = true ∧
        ∀ name ∈ first, ':' ∉ name.toList
  | none, some name => hasSchema name.toList = false
  | none, none => False

/-- A path whose text is the word of a condition. -/
structure WellFormed (p : Path) : Prop where
  /-- No attribute is narrowed. -/
  plain : ∀ e ∈ p.elements, e.2 = none
  /-- Every attribute has a name. -/
  names : ∀ e ∈ p.elements, IsName e.1
  /-- A colon ends no name but the last. -/
  inner : ∀ e ∈ p.elements.dropLast, e.1.toList.getLast? ≠ some ':'
  /-- The schema can be told from the text. -/
  schema : SchemaFits p.urn (p.elements.head?.map Prod.fst)

instance (name : String) : Decidable (IsName name) :=
  decidable_of_iff (name ≠ "" ∧ name.toList.all isNameChar = true)
    (by rw [IsName, List.all_eq_true])

instance : ∀ urn first, Decidable (SchemaFits urn first)
  | some urn, first =>
      decidable_of_iff
        (urn.toList.all isNameChar = true ∧ hasSchema (urn.toList ++ [':']) = true ∧
          ∀ name ∈ first, ':' ∉ name.toList)
        (by rw [SchemaFits, List.all_eq_true])
  | none, some name => inferInstanceAs (Decidable (hasSchema name.toList = false))
  | none, none => inferInstanceAs (Decidable False)

instance (p : Path) : Decidable p.WellFormed :=
  decidable_of_iff
    ((∀ e ∈ p.elements, e.2 = none) ∧ (∀ e ∈ p.elements, IsName e.1) ∧
      (∀ e ∈ p.elements.dropLast, e.1.toList.getLast? ≠ some ':') ∧
      SchemaFits p.urn (p.elements.head?.map Prod.fst))
    ⟨fun ⟨hplain, hnames, hinner, hschema⟩ => ⟨hplain, hnames, hinner, hschema⟩,
      fun h => ⟨h.plain, h.names, h.inner, h.schema⟩⟩

/-! ### Well-formedness by steps -/

theorem wellFormed_root {urn : Option String} :
    (root urn).WellFormed ↔ SchemaFits urn none := by
  constructor
  · intro h
    exact h.schema
  · intro h
    exact ⟨by simp, by simp, by simp, h⟩

theorem wellFormed_sub_root {urn : Option String} {name : String} :
    ((root urn).sub name).WellFormed ↔ IsName name ∧ SchemaFits urn (some name) := by
  constructor
  · intro h
    exact ⟨h.names (name, none) (by simp), by simpa [Path.urn] using h.schema⟩
  · rintro ⟨hname, hschema⟩
    exact ⟨by simp, by simpa using hname, by simp, by simpa [Path.urn] using hschema⟩

/-- A well-formed path goes on after a name that no colon ends. -/
theorem wellFormed_sub_sub {p : Path} {name name' : String} :
    ((p.sub name).sub name').WellFormed ↔
      (p.sub name).WellFormed ∧ name.toList.getLast? ≠ some ':' ∧ IsName name' := by
  have hhead : ((p.sub name).sub name').elements.head? = (p.sub name).elements.head? := by
    cases h : p.elements <;> simp [h]
  constructor
  · intro h
    have hsub : ∀ e ∈ (p.sub name).elements, e ∈ ((p.sub name).sub name').elements := by
      intro e he
      rw [elements_sub]
      exact List.mem_append_left _ he
    refine ⟨⟨?plain, ?names, ?inner, ?schema⟩, h.inner (name, none) (by simp),
      h.names (name', none) (by simp)⟩
    case plain =>
      intro e he
      exact h.plain e (hsub e he)
    case names =>
      intro e he
      exact h.names e (hsub e he)
    case inner =>
      intro e he
      refine h.inner e ?_
      rw [elements_sub, List.dropLast_concat]
      exact List.dropLast_subset _ he
    case schema => exact hhead ▸ h.schema
  · rintro ⟨h, hcolon, hname⟩
    refine ⟨?plain, ?names, ?inner, ?schema⟩
    case plain =>
      intro e he
      rw [elements_sub, List.mem_append, List.mem_singleton] at he
      rcases he with he | rfl
      · exact h.plain e he
      · rfl
    case names =>
      intro e he
      rw [elements_sub, List.mem_append, List.mem_singleton] at he
      rcases he with he | rfl
      · exact h.names e he
      · exact hname
    case inner =>
      intro e he
      rw [elements_sub, List.dropLast_concat, elements_sub, List.mem_append,
        List.mem_singleton] at he
      rcases he with he | rfl
      · exact h.inner e (by rwa [elements_sub, List.dropLast_concat])
      · exact hcolon
    case schema => exact hhead.symm ▸ h.schema

theorem not_wellFormed_subWhere {p : Path} {name : String} {f : Filter} :
    ¬ (p.subWhere name f).WellFormed := by
  intro h
  simpa using h.plain (name, some f) (by simp)

theorem not_wellFormed_sub_subWhere {p : Path} {name name' : String} {f : Filter} :
    ¬ ((p.subWhere name f).sub name').WellFormed := by
  intro h
  simpa using h.plain (name, some f) (by simp)

/-! ### The word of a well-formed path -/

theorem IsName.isWordChar {name : String} (h : IsName name) :
    ∀ c ∈ name.toList, isWordChar c = true := by
  intro c hc
  exact Text.isWordChar_of_isNameChar (h.2 c hc)

theorem IsName.toList_ne_nil {name : String} (h : IsName name) : name.toList ≠ [] := by
  simpa using h.1

theorem stem_root_some (urn : String) : (root (some urn)).stem = urn.toList ++ [':'] := rfl

theorem stem_root_none : (root none).stem = [] := rfl

theorem isWordChar_colon : isWordChar ':' = true := by decide +kernel

theorem isWordChar_dot : isWordChar '.' = true := by decide +kernel

theorem SchemaFits.stem_word {urn first : Option String} (h : SchemaFits urn first) :
    ∀ c ∈ (root urn).stem, isWordChar c = true := by
  intro c hc
  cases urn with
  | none => simp [stem_root_none] at hc
  | some urn =>
      rw [stem_root_some, List.mem_append, List.mem_singleton] at hc
      rcases hc with hc | rfl
      · exact Text.isWordChar_of_isNameChar (h.1 c hc)
      · exact isWordChar_colon

/-- The text of a well-formed path up to its last name is made of word characters. -/
theorem WellFormed.stem_word : ∀ {p : Path} {name : String}, (p.sub name).WellFormed →
    ∀ c ∈ p.stem, isWordChar c = true
  | .root _, _, h => (wellFormed_sub_root.mp h).2.stem_word
  | .sub p name, _, h => by
      obtain ⟨hp, -, -⟩ := wellFormed_sub_sub.mp h
      intro c hc
      rw [stem_sub, List.mem_append, List.mem_append, List.mem_singleton] at hc
      rcases hc with hc | hc | rfl
      · exact hp.stem_word c hc
      · exact (hp.names (name, none) (by simp)).isWordChar c hc
      · exact isWordChar_dot
  | .subWhere _ _ _, _, h => absurd h not_wellFormed_sub_subWhere

theorem WellFormed.chars_word : ∀ {p : Path}, p.WellFormed →
    p.chars ≠ [] ∧ ∀ c ∈ p.chars, isWordChar c = true
  | .root none, h => (wellFormed_root.mp h).elim
  | .root (some urn), h => ⟨by simp [chars, write], (wellFormed_root.mp h).stem_word⟩
  | .sub p name, h => by
      have hname := h.names (name, none) (by simp)
      rw [chars_sub]
      refine ⟨by simp [hname.toList_ne_nil], ?_⟩
      intro c hc
      rcases List.mem_append.mp hc with hc | hc
      · exact h.stem_word c hc
      · exact hname.isWordChar c hc
  | .subWhere _ _ _, h => absurd h not_wellFormed_subWhere

theorem WellFormed.head_chars {p : Path} (hp : p.WellFormed) :
    p.chars ≠ [] ∧ ∀ c ∈ p.chars.head?, Text.isBlank c = false := by
  obtain ⟨hne, hword⟩ := hp.chars_word
  refine ⟨hne, ?_⟩
  intro c hc
  exact Text.isBlank_eq_false (hword c (List.mem_of_head? hc))

/-- No blank is around a path with a value filter. -/
theorem WellFormed.trimmed_value {p : Path} (hp : p.WellFormed) (cs : List Char) :
    Text.Trimmed (p.chars ++ '[' :: (cs ++ [']'])) := by
  obtain ⟨hne, hhead⟩ := hp.head_chars
  obtain ⟨-, hlast⟩ := Text.trimmed_cons_concat (by decide : Text.isBlank '[' = false)
    (by decide : Text.isBlank ']' = false) cs
  exact Text.trimmed_append hne (by simp) hhead hlast

end ScimQuery.Path
