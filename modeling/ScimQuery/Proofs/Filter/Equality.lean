import ScimQuery.Filter.Equality

/-!
# Filter — equality is an equivalence

Being the same up to order and repetition of operands is an equivalence relation on filters and
on paths (`Filter.same_equivalence`), at any nesting of value filters in paths and of paths in
filters.

* `Filter.InductionSteps`: induction on filters and paths together, stated once.
* `Filter.join_same_iff` and its companions, one for each kind of node: what is the same as a
  node has its shape and parts that are the same.  Operands match both ways (`Filter.Match`):
  each one of either side is the same as one of the other.

The induction is always on the filter on the left; in transitivity, an operand on the right is
led back to one on the left through the middle.
-/

namespace ScimQuery

/-! ### Induction -/

/-- What a property of filters and one of paths have to fulfil to hold of all of them. -/
structure Filter.InductionSteps (P : Filter → Prop) (Q : Path → Prop) : Prop where
  compare : ∀ op p v, Q p → P (.compare op p v)
  present : ∀ p, Q p → P (.present p)
  join : ∀ j (fs : List Filter), (∀ f ∈ fs, P f) → P (.join j fs)
  not : ∀ f, P f → P (.not f)
  complex : ∀ p f, Q p → P f → P (.complex p f)
  root : ∀ urn, Q (.root urn)
  sub : ∀ p name, Q p → Q (.sub p name)
  subWhere : ∀ p name f, Q p → P f → Q (.subWhere p name f)

namespace Filter.InductionSteps

variable {P : Filter → Prop} {Q : Path → Prop}

mutual

theorem filter (h : InductionSteps P Q) : ∀ f, P f
  | .compare op p v => h.compare op p v (h.path p)
  | .present p => h.present p (h.path p)
  | .and fs => h.join .and fs (h.filters fs)
  | .or fs => h.join .or fs (h.filters fs)
  | .not f => h.not f (h.filter f)
  | .complex p f => h.complex p f (h.path p) (h.filter f)

theorem filters (h : InductionSteps P Q) : ∀ fs : List Filter, ∀ f ∈ fs, P f
  | [] => List.forall_mem_nil P
  | f :: fs => List.forall_mem_cons.mpr ⟨h.filter f, h.filters fs⟩

theorem path (h : InductionSteps P Q) : ∀ p, Q p
  | .root urn => h.root urn
  | .sub p name => h.sub p name (h.path p)
  | .subWhere p name f => h.subWhere p name f (h.path p) (h.filter f)

end

end Filter.InductionSteps

/-! ### Values -/

theorem Number.Double.same_iff {a b : Number.Double} :
    a.same b = true ↔ a.magnitude = b.magnitude ∧ (a.negative = b.negative ∨ a.magnitude = 0) := by
  simp [Number.Double.same]

theorem Number.same_equiv : Equivalence fun m n : Number => m.same n = true where
  refl
    | .whole n => by simp [Number.same]
    | .double d => Number.Double.same_iff.mpr ⟨rfl, .inl rfl⟩
  symm := by
    rintro (m | a) (n | b) h
    · have hmn : m.val = n.val := by simpa [Number.same] using h
      simp [Number.same, hmn]
    · cases h
    · cases h
    · obtain ⟨hmag, hsign⟩ := Number.Double.same_iff.mp h
      exact Number.Double.same_iff.mpr ⟨hmag.symm, hsign.imp Eq.symm (hmag ▸ ·)⟩
  trans := by
    rintro (l | a) (m | b) (n | c) h h'
    · have hlm : l.val = m.val := by simpa [Number.same] using h
      have hmn : m.val = n.val := by simpa [Number.same] using h'
      simp [Number.same, hlm, hmn]
    · cases h'
    · cases h
    · cases h
    · cases h
    · cases h
    · cases h'
    · obtain ⟨hmag, hsign⟩ := Number.Double.same_iff.mp h
      obtain ⟨hmag', hsign'⟩ := Number.Double.same_iff.mp h'
      refine Number.Double.same_iff.mpr ⟨hmag.trans hmag', ?_⟩
      -- where one of them is a zero, all are
      rcases hsign with hsign | hzero
      · exact hsign'.imp hsign.trans hmag.trans
      · exact .inr hzero

/-- Values are the same when they are equal or equal numbers. -/
theorem Value.same_iff {v w : Value} :
    v.same w = true ↔
      v = w ∨ ∃ m n, v = .number m ∧ w = .number n ∧ m.same n = true := by
  have number_refl (n : Number) : n.same n = true := Number.same_equiv.refl n
  cases v <;> cases w <;> simp [Value.same]
  rintro rfl
  exact number_refl _

theorem Value.same_equiv : Equivalence fun v w : Value => v.same w = true where
  refl _ := Value.same_iff.mpr (.inl rfl)
  symm h := by
    rcases Value.same_iff.mp h with rfl | ⟨m, n, rfl, rfl, hmn⟩
    · exact Value.same_iff.mpr (.inl rfl)
    · exact Value.same_iff.mpr (.inr ⟨n, m, rfl, rfl, Number.same_equiv.symm hmn⟩)
  trans h h' := by
    rcases Value.same_iff.mp h with rfl | ⟨l, m, rfl, rfl, hlm⟩
    · exact h'
    · rcases Value.same_iff.mp h' with rfl | ⟨m', n, hm, rfl, hmn⟩
      · exact h
      · cases hm
        exact Value.same_iff.mpr (.inr ⟨l, n, rfl, rfl, Number.same_equiv.trans hlm hmn⟩)

/-! ### What is the same as a node -/

/-- Each filter of either list is the same as one of the other. -/
def Filter.Match (fs gs : List Filter) : Prop :=
  (∀ f ∈ fs, ∃ g ∈ gs, f.same g = true) ∧ ∀ g ∈ gs, ∃ f ∈ fs, f.same g = true

namespace Filter

variable {f g : Filter} {p : Path}

theorem compare_same_iff {op : Operator} {v : Value} :
    (compare op p v).same g = true ↔
      ∃ q w, g = .compare op q w ∧ p.same q = true ∧ v.same w = true := by
  cases g with
  | compare op' q w =>
      simp only [same, Bool.and_eq_true, beq_iff_eq, Filter.compare.injEq]
      constructor
      · rintro ⟨⟨rfl, hp⟩, hv⟩
        exact ⟨q, w, ⟨rfl, rfl, rfl⟩, hp, hv⟩
      · rintro ⟨_, _, ⟨rfl, rfl, rfl⟩, hp, hv⟩
        exact ⟨⟨rfl, hp⟩, hv⟩
  | _ => simp [same]

theorem present_same_iff : (present p).same g = true ↔ ∃ q, g = .present q ∧ p.same q = true := by
  cases g <;> simp [same]

theorem join_same_join {j : Junction} {fs gs : List Filter} :
    (join j fs).same (join j gs) = true ↔ Match fs gs := by
  have hboth : (fs.all (fun f => gs.any f.same) && gs.all (fun g => fs.any (·.same g))) = true ↔
      Match fs gs := by
    simp [Match]
  cases j with
  | and => exact same_and fs gs ▸ hboth
  | or => exact same_or fs gs ▸ hboth

theorem join_same_iff {j : Junction} {fs : List Filter} :
    (join j fs).same g = true ↔ ∃ gs, g = join j gs ∧ Match fs gs := by
  constructor
  · intro h
    obtain ⟨gs, rfl⟩ : ∃ gs, g = join j gs := by
      cases j <;> cases g <;> simp [join, same] at h ⊢
    exact ⟨gs, rfl, join_same_join.mp h⟩
  · rintro ⟨gs, rfl, h⟩
    exact join_same_join.mpr h

theorem not_same_iff : (Filter.not f).same g = true ↔ ∃ h, g = .not h ∧ f.same h = true := by
  cases g <;> simp [same]

theorem complex_same_iff :
    (complex p f).same g = true ↔ ∃ q h, g = .complex q h ∧ p.same q = true ∧ f.same h = true := by
  cases g with
  | complex q h =>
      simp only [same, Bool.and_eq_true, Filter.complex.injEq]
      constructor
      · rintro ⟨hp, hf⟩
        exact ⟨q, h, ⟨rfl, rfl⟩, hp, hf⟩
      · rintro ⟨_, _, ⟨rfl, rfl⟩, hp, hf⟩
        exact ⟨hp, hf⟩
  | _ => simp [same]

end Filter

namespace Path

variable {p q : Path} {name : String} {f : Filter}

theorem root_same_iff {urn : Option String} : (root urn).same q = true ↔ q = .root urn := by
  cases q with
  | root urn' =>
      rw [same, beq_iff_eq, Path.root.injEq]
      exact eq_comm
  | _ => simp [same]

theorem sub_same_iff :
    (p.sub name).same q = true ↔ ∃ r, q = .sub r name ∧ p.same r = true := by
  cases q with
  | sub r name' =>
      simp only [same, Bool.and_eq_true, beq_iff_eq, Path.sub.injEq]
      constructor
      · rintro ⟨rfl, h⟩
        exact ⟨r, ⟨rfl, rfl⟩, h⟩
      · rintro ⟨_, ⟨rfl, rfl⟩, h⟩
        exact ⟨rfl, h⟩
  | _ => simp [same]

theorem subWhere_same_iff :
    (p.subWhere name f).same q = true ↔
      ∃ r g, q = .subWhere r name g ∧ p.same r = true ∧ f.same g = true := by
  cases q with
  | subWhere r name' g =>
      simp only [same, Bool.and_eq_true, beq_iff_eq, Path.subWhere.injEq]
      constructor
      · rintro ⟨⟨rfl, h⟩, hf⟩
        exact ⟨r, g, ⟨rfl, rfl, rfl⟩, h, hf⟩
      · rintro ⟨_, _, ⟨rfl, rfl, rfl⟩, h, hf⟩
        exact ⟨⟨rfl, h⟩, hf⟩
  | _ => simp [same]

end Path

/-! ### The three laws -/

theorem Filter.same_refl_steps :
    Filter.InductionSteps (fun f => f.same f = true) (fun p => p.same p = true) where
  compare _ p v hp := compare_same_iff.mpr ⟨p, v, rfl, hp, Value.same_equiv.refl v⟩
  present p hp := present_same_iff.mpr ⟨p, rfl, hp⟩
  join _ _ hfs := join_same_join.mpr ⟨fun f hf => ⟨f, hf, hfs f hf⟩, fun f hf => ⟨f, hf, hfs f hf⟩⟩
  not f hf := not_same_iff.mpr ⟨f, rfl, hf⟩
  complex p f hp hf := complex_same_iff.mpr ⟨p, f, rfl, hp, hf⟩
  root _ := Path.root_same_iff.mpr rfl
  sub p _ hp := Path.sub_same_iff.mpr ⟨p, rfl, hp⟩
  subWhere p _ f hp hf := Path.subWhere_same_iff.mpr ⟨p, f, rfl, hp, hf⟩

theorem Filter.same_symm_steps :
    Filter.InductionSteps (fun f => ∀ g, f.same g = true → g.same f = true)
      (fun p => ∀ q, p.same q = true → q.same p = true) where
  compare op p v hp _ h := by
    obtain ⟨q, w, rfl, hpq, hvw⟩ := compare_same_iff.mp h
    exact compare_same_iff.mpr ⟨p, v, rfl, hp q hpq, Value.same_equiv.symm hvw⟩
  present p hp _ h := by
    obtain ⟨q, rfl, hpq⟩ := present_same_iff.mp h
    exact present_same_iff.mpr ⟨p, rfl, hp q hpq⟩
  join j fs hfs _ h := by
    obtain ⟨gs, rfl, hleft, hright⟩ := join_same_iff.mp h
    refine join_same_join.mpr ⟨?_, ?_⟩
    · intro g hg
      obtain ⟨f, hf, hfg⟩ := hright g hg
      exact ⟨f, hf, hfs f hf g hfg⟩
    · intro f hf
      obtain ⟨g, hg, hfg⟩ := hleft f hf
      exact ⟨g, hg, hfs f hf g hfg⟩
  not f hf _ h := by
    obtain ⟨g, rfl, hfg⟩ := not_same_iff.mp h
    exact not_same_iff.mpr ⟨f, rfl, hf g hfg⟩
  complex p f hp hf _ h := by
    obtain ⟨q, g, rfl, hpq, hfg⟩ := complex_same_iff.mp h
    exact complex_same_iff.mpr ⟨p, f, rfl, hp q hpq, hf g hfg⟩
  root urn _ h := by
    obtain rfl := Path.root_same_iff.mp h
    exact h
  sub p name hp _ h := by
    obtain ⟨q, rfl, hpq⟩ := Path.sub_same_iff.mp h
    exact Path.sub_same_iff.mpr ⟨p, rfl, hp q hpq⟩
  subWhere p name f hp hf _ h := by
    obtain ⟨q, g, rfl, hpq, hfg⟩ := Path.subWhere_same_iff.mp h
    exact Path.subWhere_same_iff.mpr ⟨p, f, rfl, hp q hpq, hf g hfg⟩

theorem Filter.same_trans_steps :
    Filter.InductionSteps
      (fun f => ∀ g h, f.same g = true → g.same h = true → f.same h = true)
      (fun p => ∀ q r, p.same q = true → q.same r = true → p.same r = true) where
  compare op p v hp _ _ h h' := by
    obtain ⟨q, w, rfl, hpq, hvw⟩ := compare_same_iff.mp h
    obtain ⟨r, x, rfl, hqr, hwx⟩ := compare_same_iff.mp h'
    exact compare_same_iff.mpr ⟨r, x, rfl, hp q r hpq hqr, Value.same_equiv.trans hvw hwx⟩
  present p hp _ _ h h' := by
    obtain ⟨q, rfl, hpq⟩ := present_same_iff.mp h
    obtain ⟨r, rfl, hqr⟩ := present_same_iff.mp h'
    exact present_same_iff.mpr ⟨r, rfl, hp q r hpq hqr⟩
  join j fs hfs _ _ h h' := by
    obtain ⟨gs, rfl, hleft, hright⟩ := join_same_iff.mp h
    obtain ⟨hs, rfl, hleft', hright'⟩ := join_same_iff.mp h'
    refine join_same_join.mpr ⟨?_, ?_⟩
    · intro f hf
      obtain ⟨g, hg, hfg⟩ := hleft f hf
      obtain ⟨k, hk, hgk⟩ := hleft' g hg
      exact ⟨k, hk, hfs f hf g k hfg hgk⟩
    · intro k hk
      obtain ⟨g, hg, hgk⟩ := hright' k hk
      obtain ⟨f, hf, hfg⟩ := hright g hg
      exact ⟨f, hf, hfs f hf g k hfg hgk⟩
  not f hf _ _ h h' := by
    obtain ⟨g, rfl, hfg⟩ := not_same_iff.mp h
    obtain ⟨k, rfl, hgk⟩ := not_same_iff.mp h'
    exact not_same_iff.mpr ⟨k, rfl, hf g k hfg hgk⟩
  complex p f hp hf _ _ h h' := by
    obtain ⟨q, g, rfl, hpq, hfg⟩ := complex_same_iff.mp h
    obtain ⟨r, k, rfl, hqr, hgk⟩ := complex_same_iff.mp h'
    exact complex_same_iff.mpr ⟨r, k, rfl, hp q r hpq hqr, hf g k hfg hgk⟩
  root urn _ _ h h' := by
    obtain rfl := Path.root_same_iff.mp h
    exact h'
  sub p name hp _ _ h h' := by
    obtain ⟨q, rfl, hpq⟩ := Path.sub_same_iff.mp h
    obtain ⟨r, rfl, hqr⟩ := Path.sub_same_iff.mp h'
    exact Path.sub_same_iff.mpr ⟨r, rfl, hp q r hpq hqr⟩
  subWhere p name f hp hf _ _ h h' := by
    obtain ⟨q, g, rfl, hpq, hfg⟩ := Path.subWhere_same_iff.mp h
    obtain ⟨r, k, rfl, hqr, hgk⟩ := Path.subWhere_same_iff.mp h'
    exact Path.subWhere_same_iff.mpr ⟨r, k, rfl, hp q r hpq hqr, hf g k hfg hgk⟩

/-- **Being the same is an equivalence relation**, on filters and on paths. -/
theorem Filter.same_equivalence :
    Equivalence (fun f g : Filter => f.same g = true) ∧
      Equivalence fun p q : Path => p.same q = true :=
  ⟨⟨same_refl_steps.filter, same_symm_steps.filter _ _, same_trans_steps.filter _ _ _⟩,
    ⟨same_refl_steps.path, same_symm_steps.path _ _, same_trans_steps.path _ _ _⟩⟩

end ScimQuery
