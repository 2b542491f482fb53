import Mathlib.Data.List.Forall2
import ScimQuery.Proofs.Filter.Derivation
import ScimQuery.Proofs.Filter.Items

/-!
# Filter — the attributes that value filters narrow

The value filters of a filter (`Filter.complexPaths`) narrow what the words in front of its opening
brackets name, one by one.  A word may be a schema with its colon and no name
(`Path.IsBareSchema`): it names the root of an extension, so that its value filter narrows no
attribute.

* `Filter.complexPaths_eq`: the value filters are among the items of a filter.
* `Reading.Sound.step_paths`: so a step adds those of its phrase.
* `Reading.Sound.run_paths`: from it, by induction, a whole run.
* `parseFilter_narrows`: the value filters of a text.
-/

namespace ScimQuery

open Text (Atom Cursor atoms)

/-! ### The paths of value filters -/

namespace Filter

/-- The path of a value filter. -/
def narrowed? : Filter → Option Path
  | .complex path _ => some path
  | _ => none

/-- The paths of the value filters in a filter, in the order of a walk. -/
def complexPaths (f : Filter) : List Path :=
  f.nodes.filterMap fun node => node.2.narrowed?

/-- The path of an item that is a value filter. -/
def Item.path? : Item → Option Path
  | .condition _ => none
  | .narrowed path => some path

/-- The value filters are among the items. -/
theorem complexPaths_eq (f : Filter) : f.complexPaths = f.items.filterMap Item.path? := by
  rw [complexPaths, items, List.filterMap_filterMap]
  congr
  funext ⟨d, f⟩
  cases f <;> rfl

end Filter

/-- The paths of the value filters in the operands on a stack, in the order of the text. -/
def Level.paths (operands : List Filter) : List Path :=
  operands.reverse.flatMap Filter.complexPaths

theorem Level.paths_eq (operands : List Filter) :
    paths operands = (items operands).filterMap Filter.Item.path? := by
  rw [paths, items, List.filterMap_flatMap, funext Filter.complexPaths_eq]

/-! ### The words in front of brackets -/

namespace Path

/-- The word is a schema with its colon and no name. -/
def IsBareSchema (word : List Char) : Prop :=
  hasSchema word = true ∧ word.getLast? = some ':' ∧ '.' ∉ word

instance (word : List Char) : Decidable (IsBareSchema word) :=
  inferInstanceAs (Decidable (_ ∧ _ ∧ _))

/-- The word names an attribute, or nothing but a schema. -/
structure NamedBy (word : List Char) (p : Path) : Prop where
  ofWord : Path.ofWord word = .ok p
  bare : p.elements = [] ↔ IsBareSchema word

theorem isBareSchema_root {urn : String} (h : (root (some urn)).WellFormed) :
    IsBareSchema (root (some urn)).chars := by
  obtain ⟨hnames, hschema, -⟩ := wellFormed_root.mp h
  refine ⟨hschema, by simp [chars, write], ?_⟩
  intro hdot
  rcases List.mem_append.mp hdot with hdot | hdot
  · exact dot_not_mem hnames hdot
  · cases List.mem_singleton.mp hdot

theorem not_isBareSchema_sub {q : Path} {name : String} (h : (q.sub name).WellFormed) :
    ¬ IsBareSchema (q.sub name).chars := by
  rintro ⟨hschema, hlast, hdot⟩
  rw [chars_sub] at hschema hlast hdot
  cases q with
  | root urn =>
      obtain ⟨hname, hfits⟩ := wellFormed_sub_root.mp h
      cases urn with
      | none =>
          have hnone : hasSchema name.toList = false := hfits
          rw [stem_root_none, List.nil_append, hnone] at hschema
          cases hschema
      | some urn =>
          rw [List.getLast?_append_of_ne_nil _ hname.toList_ne_nil] at hlast
          exact hfits.2.2 name rfl (List.mem_of_getLast? hlast)
  | sub q name' =>
      rw [stem_sub] at hdot
      simp at hdot
  | subWhere q name' f => exact not_wellFormed_sub_subWhere h

/-- **A word names no attribute** just if it is a schema with its colon and no name. -/
theorem namedBy_of_spelled {word : List Char} {p : Path} (hne : word ≠ [])
    (hword : (Token.valuePath word).Spelled) (h : Path.ofWord word = .ok p) : NamedBy word p := by
  have hbracket : '[' ∉ word := by
    intro hmem
    have := hword '[' hmem
    rw [Text.isWordChar_eq_false (by simp)] at this
    cases this
  obtain ⟨hp, rfl⟩ := ofWord_sound hne hbracket h
  refine ⟨h, ?_⟩
  cases p with
  | root urn =>
      cases urn with
      | none => exact (wellFormed_root.mp hp).elim
      | some urn => exact iff_of_true rfl (isBareSchema_root hp)
  | sub q name => exact iff_of_false (by simp) (not_isBareSchema_sub hp)
  | subWhere q name f => exact absurd hp not_wellFormed_subWhere

end Path

/-- The words with an opening bracket behind them. -/
def Text.openedWords (as : List Atom) : List (List Char) :=
  as.filterMap fun
    | .opened w => some w
    | _ => none

theorem Text.openedWords_append (as bs : List Atom) :
    openedWords (as ++ bs) = openedWords as ++ openedWords bs :=
  List.filterMap_append

theorem Value.MadeOf.openedWords {v : Value} {as : List Atom} (h : v.MadeOf as) :
    Text.openedWords as = [] := by
  induction h with
  | blank _ _ _ ih => exact ih
  | word => rfl
  | quoted => rfl

/-- The paths of the value filters that a phrase holds or opens. -/
def Phrase.paths : Phrase → List Path
  | .operand f => f.complexPaths
  | .openValue path _ => [path]
  | _ => []

theorem Phrase.paths_eq (phrase : Phrase) :
    phrase.paths = phrase.items.filterMap Filter.Item.path? := by
  cases phrase with
  | operand f => exact f.complexPaths_eq
  | _ => rfl

theorem Phrase.paths_unplaced (phrase : Phrase) : phrase.unplaced.paths = phrase.paths := by
  cases phrase <;> rfl

/-- A phrase has a bracket in it where it opens a value filter, and nowhere else. -/
theorem Phrase.MadeOf.openedWords {region : Region} {due : Bool} {phrase : Phrase}
    {as : List Atom} (h : phrase.MadeOf region due as) :
    List.Forall₂ Path.NamedBy (Text.openedWords as) phrase.paths := by
  cases h with
  | @compare w o _ _ _ as _ _ _ _ _ _ hvalue =>
      have hnone : Text.openedWords (.word w :: .word o :: as) = [] := hvalue.openedWords
      rw [hnone]
      exact .nil
  | openValue hw hne hpath => exact .cons (Path.namedBy_of_spelled hne hw hpath) .nil
  | _ => exact .nil

namespace Reading

variable {limits : Limits} {r r' : Reading} {phrase : Phrase} {f : Filter} {c after : Cursor}

/-- The paths of the value filters that have been read or opened, in the order of the text. -/
def paths (r : Reading) : List Path :=
  (r.outer.reverse.flatMap fun e => Level.paths e.2.operands ++ [e.1]) ++
    Level.paths r.level.operands

theorem paths_eq (r : Reading) : r.paths = r.items.filterMap Filter.Item.path? := by
  simp only [paths, items, Level.paths_eq, List.filterMap_append, List.filterMap_flatMap]
  rfl

/-- **A step adds the value filters of its phrase.** -/
theorem Sound.step_paths (hr : r.Sound 0) (h : r.step limits phrase = .ok (.more r')) :
    r'.paths = r.paths ++ phrase.paths := by
  rw [paths_eq, paths_eq, hr.step_items h, List.filterMap_append, Phrase.paths_eq]

/-- **The value filters of what is read** are those that have been read or opened, and those whose
brackets are still to be read. -/
theorem Sound.run_paths {r : Reading} {c : Cursor} (hr : r.Sound 0)
    (h : r.run limits c = .ok (f, after)) :
    ∃ ps, f.complexPaths = r.paths ++ ps ∧
      List.Forall₂ Path.NamedBy (Text.openedWords (atoms c.rest)) ps := by
  rcases hr.run_cases h with ⟨hend, hfinish⟩ | ⟨phrase, next, r', hreads, hstep, hr', hrest⟩
  · obtain ⟨l, outer⟩ := r
    have hbracket : l.bracket = none := bracket_of_finish hfinish
    have hlevel : l.finish = .ok f := by
      simpa only [finish, hbracket] using hfinish
    cases outer with
    | cons e outer =>
        have hregion := hr.region_inside
        rw [Level.region, hbracket] at hregion
        cases hregion
    | nil =>
        refine ⟨[], ?_, ?_⟩
        · rw [List.append_nil, paths_eq, ← hr.finish_items rfl hlevel, Filter.complexPaths_eq]
        · rw [Token.atoms_of_read_none hend]
          exact .nil
  · have := Phrase.read_length (Phrase.read_eq_some_iff.mpr hreads)
    obtain ⟨as, hmade, hatoms⟩ := hr'.madeOf hreads hstep hrest
    obtain ⟨ps, hpaths, hnamed⟩ := hr'.run_paths hrest
    refine ⟨phrase.paths ++ ps, ?_, ?_⟩
    · rw [hpaths, hr.step_paths hstep, List.append_assoc]
    · have hphrase := hmade.openedWords
      rw [Phrase.paths_unplaced] at hphrase
      rw [hatoms, Text.openedWords_append]
      exact List.rel_append hphrase hnamed
termination_by c.rest.length

end Reading

/-! ### Whole texts -/

/-- The paths have attributes just if the words do not lack them. -/
theorem Path.forall_elements_iff {words : List (List Char)} {ps : List Path}
    (h : List.Forall₂ NamedBy words ps) :
    (∀ p ∈ ps, p.elements ≠ []) ↔ ∀ w ∈ words, ¬ IsBareSchema w := by
  induction h with
  | nil => simp
  | cons hp _ ih => rw [List.forall_mem_cons, List.forall_mem_cons, ih, Ne, hp.bare]

/-- **The value filters of a filter** narrow what the words in front of its brackets name, one by
one and in this order.  So each narrows an attribute just if none of the words is a schema with its
colon and no name. -/
theorem parseFilter_narrows (limits : Limits) (text : String) (f : Filter)
    (h : parseFilter limits text = .ok f) :
    List.Forall₂ Path.NamedBy (Text.openedWords (atoms (Text.strip text.toList))) f.complexPaths ∧
      ((∀ p ∈ f.complexPaths, p.elements ≠ []) ↔
        ∀ w ∈ Text.openedWords (atoms (Text.strip text.toList)), ¬ Path.IsBareSchema w) := by
  obtain ⟨k, after, hrun⟩ := exists_run_of_parse h
  obtain ⟨ps, hpaths, hnamed⟩ := Reading.sound_start.run_paths hrun
  obtain rfl : f.complexPaths = ps := hpaths
  exact ⟨hnamed, Path.forall_elements_iff hnamed⟩

/-- Value filters inside each other and side by side, and a bracket in a string. -/
theorem parseFilter_narrows_nested :
    ∃ f, parseFilter {} " a[b.c[d pr] and urn:e:f[g eq \"[\"]] or not (h[i pr])" = .ok f ∧
      f.complexPaths.length = 4 ∧ ∀ p ∈ f.complexPaths, p.elements ≠ [] := by
  have hparse : (parseFilter {}
      " a[b.c[d pr] and urn:e:f[g eq \"[\"]] or not (h[i pr])").toOption.isSome = true := by
    decide +kernel
  obtain ⟨f, hf⟩ := Option.isSome_iff_exists.mp hparse
  rw [Text.toOption_eq_some_iff] at hf
  have hwords : Text.openedWords (atoms (Text.strip
      " a[b.c[d pr] and urn:e:f[g eq \"[\"]] or not (h[i pr])".toList)) =
      ["a".toList, "b.c".toList, "urn:e:f".toList, "h".toList] := by
    decide +kernel
  obtain ⟨hnamed, hnarrows⟩ := parseFilter_narrows {} _ f hf
  rw [hwords] at hnamed hnarrows
  exact ⟨f, hf, hnamed.length_eq.symm, hnarrows.mpr (by decide +kernel)⟩

/-- A schema with its colon is taken for the path of a value filter, which a path by itself may not
have. -/
theorem parseFilter_narrows_nothing :
    (∃ f, parseFilter {} "urn:a:[b pr]" = .ok f ∧ ∃ p ∈ f.complexPaths, p.elements = []) ∧
      parsePath {} "urn:a:[b pr]" = .error (.attributeNameExpected 0) := by
  constructor
  · have hparse : (parseFilter {} "urn:a:[b pr]").toOption.map
        (fun f => f.complexPaths.map fun p => p.length) = some [0] := by
      decide +kernel
    obtain ⟨f, hf, hlengths⟩ := Option.map_eq_some_iff.mp hparse
    rw [Text.toOption_eq_some_iff] at hf
    obtain ⟨p, hp, hlength⟩ : ∃ p ∈ f.complexPaths, p.length = 0 :=
      List.mem_map.mp (hlengths ▸ List.mem_singleton.mpr rfl)
    rw [← Path.length_elements] at hlength
    exact ⟨f, hf, p, hp, List.eq_nil_of_length_eq_zero hlength⟩
  · have hparse : Text.refusal? (parsePath {} "urn:a:[b pr]") =
        some (.attributeNameExpected 0) := by
      decide +kernel
    exact Text.refusal?_eq_some_iff.mp hparse

end ScimQuery
