import ScimQuery.Command.Run
import ScimQuery.Proofs.Filter.Equality
import ScimQuery.Proofs.Filter.WellFormed

/-!
# Filter — the same filters mean the same

An evaluator decides the conditions on attributes, on records of any kind; the junctions and
`not` are read as such (`Filter.holds`).  Filters that are the same hold of the same records, so
that no evaluator tells them apart (`Filter.holds_eq_of_same`).

* `Evaluator.LeavesAgree`: the evaluator gives the same answer on the same paths and values.
* `Filter.NarrowsOn C`: every value filter narrows a path that fulfils `C`.
* `Filter.holds_eq_of_narrowsOn`: the law for evaluators that treat value filters alike where
  paths that fulfil `C` are the same.  With `C` all paths this is the law for all filters; with
  `C` the well-formed ones, on which being the same is being equal, it is the law for the filters
  that are read, and there the evaluator may treat value filters as it likes.

The induction is on the shape of the filter on the left, which the one on the right has too.
Operands match both ways, so that none that fails, or that holds, is without a counterpart.
-/

namespace ScimQuery

universe u

/-! ### Evaluators -/

/-- How the conditions on attributes are decided on a record. -/
structure Evaluator (Record : Type u) where
  /-- Does the attribute compare with the value? -/
  compares : Operator → Path → Value → Record → Bool
  /-- Does the attribute have a value? -/
  isPresent : Path → Record → Bool
  /-- Does some value of the attribute satisfy the value filter, which is given by what it
  means? -/
  hasValue : Path → (Record → Bool) → Record → Bool

section

variable {Record : Type u}

mutual

/-- Does the filter hold of a record? -/
def Filter.holds (E : Evaluator Record) : Filter → Record → Bool
  | .compare op path value, r => E.compares op path value r
  | .present path, r => E.isPresent path r
  | .and operands, r => (Filter.answers E operands r).all id
  | .or operands, r => (Filter.answers E operands r).any id
  | .not operand, r => !operand.holds E r
  | .complex path filter, r => E.hasValue path (filter.holds E) r

/-- Which of the filters hold of a record? -/
def Filter.answers (E : Evaluator Record) : List Filter → Record → List Bool
  | [], _ => []
  | f :: fs, r => f.holds E r :: Filter.answers E fs r

end

theorem Filter.answers_eq (E : Evaluator Record) (r : Record) (fs : List Filter) :
    Filter.answers E fs r = fs.map (·.holds E r) := by
  induction fs with
  | nil => rfl
  | cons f fs ih => rw [answers, ih, List.map_cons]

theorem Filter.holds_and (E : Evaluator Record) (fs : List Filter) (r : Record) :
    (Filter.and fs).holds E r = true ↔ ∀ f ∈ fs, f.holds E r = true := by
  simp [Filter.holds, Filter.answers_eq]

theorem Filter.holds_or (E : Evaluator Record) (fs : List Filter) (r : Record) :
    (Filter.or fs).holds E r = true ↔ ∃ f ∈ fs, f.holds E r = true := by
  simp [Filter.holds, Filter.answers_eq]

/-- The evaluator gives the same answer on the same paths and values. -/
structure Evaluator.LeavesAgree (E : Evaluator Record) : Prop where
  compares : ∀ op {p q : Path} {v w : Value}, p.same q = true → v.same w = true →
    E.compares op p v = E.compares op q w
  isPresent : ∀ {p q : Path}, p.same q = true → E.isPresent p = E.isPresent q

/-! ### The paths of value filters -/

/-- Every value filter narrows a path that fulfils `C`. -/
inductive Filter.NarrowsOn (C : Path → Prop) : Filter → Prop where
  | compare {op : Operator} {p : Path} {v : Value} : NarrowsOn C (.compare op p v)
  | present {p : Path} : NarrowsOn C (.present p)
  | and {fs : List Filter} : (∀ f ∈ fs, NarrowsOn C f) → NarrowsOn C (.and fs)
  | or {fs : List Filter} : (∀ f ∈ fs, NarrowsOn C f) → NarrowsOn C (.or fs)
  | not {f : Filter} : NarrowsOn C f → NarrowsOn C (.not f)
  | complex {p : Path} {f : Filter} : C p → NarrowsOn C f → NarrowsOn C (.complex p f)

theorem Filter.narrowsOn_steps {C : Path → Prop} (hC : ∀ p, C p) :
    Filter.InductionSteps (Filter.NarrowsOn C) C where
  compare _ _ _ _ := .compare
  present _ _ := .present
  join j _ hfs := by
    cases j with
    | and => exact .and hfs
    | or => exact .or hfs
  not _ hf := .not hf
  complex _ _ hp hf := .complex hp hf
  root _ := hC _
  sub _ _ _ := hC _
  subWhere _ _ _ _ _ := hC _

theorem Filter.WellFormed.narrowsOn {f : Filter} (h : f.WellFormed) :
    f.NarrowsOn Path.WellFormed := by
  induction h with
  | compare => exact .compare
  | present => exact .present
  | and _ _ ih => exact .and ih
  | or _ _ ih => exact .or ih
  | not _ ih => exact .not ih
  | complex hp _ ih => exact .complex hp ih

/-- On paths that narrow no attribute, being the same is being equal. -/
theorem Path.eq_of_same_of_plain : ∀ {p q : Path}, (∀ e ∈ p.elements, e.2 = none) →
    p.same q = true → p = q
  | .root _, _, _, h => (root_same_iff.mp h).symm
  | .sub p name, _, hplain, h => by
    obtain ⟨r, rfl, hr⟩ := sub_same_iff.mp h
    rw [elements_sub, List.forall_mem_append] at hplain
    rw [eq_of_same_of_plain hplain.1 hr]
  | .subWhere p name f, _, hplain, _ => by
    have := hplain (name, some f) (by simp)
    cases this

/-! ### The same filters -/

/-- Lists of filters that match, each pair of which means the same, answer alike. -/
theorem Filter.Match.holds_iff {E : Evaluator Record} {fs gs : List Filter}
    (h : Filter.Match fs gs)
    (hfs : ∀ f ∈ fs, ∀ g, f.same g = true → f.holds E = g.holds E) (r : Record) :
    ((∀ f ∈ fs, f.holds E r = true) ↔ ∀ g ∈ gs, g.holds E r = true) ∧
      ((∃ f ∈ fs, f.holds E r = true) ↔ ∃ g ∈ gs, g.holds E r = true) := by
  obtain ⟨hleft, hright⟩ := h
  refine ⟨⟨?_, ?_⟩, ⟨?_, ?_⟩⟩
  · intro hall g hg
    obtain ⟨f, hf, hfg⟩ := hright g hg
    exact hfs f hf g hfg ▸ hall f hf
  · intro hall f hf
    obtain ⟨g, hg, hfg⟩ := hleft f hf
    exact hfs f hf g hfg ▸ hall g hg
  · rintro ⟨f, hf, hholds⟩
    obtain ⟨g, hg, hfg⟩ := hleft f hf
    exact ⟨g, hg, hfs f hf g hfg ▸ hholds⟩
  · rintro ⟨g, hg, hholds⟩
    obtain ⟨f, hf, hfg⟩ := hright g hg
    exact ⟨f, hf, hfs f hf g hfg ▸ hholds⟩

theorem Filter.holds_eq_of_narrowsOn {E : Evaluator Record} {C : Path → Prop}
    (hleaves : E.LeavesAgree)
    (hC : ∀ {p q : Path}, C p → p.same q = true → E.hasValue p = E.hasValue q)
    {f : Filter} (hf : f.NarrowsOn C) : ∀ g, f.same g = true → f.holds E = g.holds E := by
  induction hf with
  | compare =>
      intro g h
      obtain ⟨q, w, rfl, hpq, hvw⟩ := compare_same_iff.mp h
      exact hleaves.compares _ hpq hvw
  | present =>
      intro g h
      obtain ⟨q, rfl, hpq⟩ := present_same_iff.mp h
      exact hleaves.isPresent hpq
  | and _ ih =>
      intro g h
      obtain ⟨gs, rfl, hmatch⟩ := join_same_iff (j := .and).mp h
      funext r
      rw [Bool.eq_iff_iff, holds_and, join, holds_and]
      exact (hmatch.holds_iff ih r).1
  | or _ ih =>
      intro g h
      obtain ⟨gs, rfl, hmatch⟩ := join_same_iff (j := .or).mp h
      funext r
      rw [Bool.eq_iff_iff, holds_or, join, holds_or]
      exact (hmatch.holds_iff ih r).2
  | not _ ih =>
      intro g h
      obtain ⟨g, rfl, hfg⟩ := not_same_iff.mp h
      funext r
      rw [holds, holds, ih g hfg]
  | complex hp _ ih =>
      intro g h
      obtain ⟨q, g, rfl, hpq, hfg⟩ := complex_same_iff.mp h
      funext r
      rw [holds, holds, hC hp hpq, ih g hfg]

/-- What is read has plain paths, so that the evaluator may treat them as it likes. -/
theorem Filter.WellFormed.holds_eq {E : Evaluator Record} (hleaves : E.LeavesAgree)
    {f g : Filter} (hf : f.WellFormed) (h : f.same g = true) : f.holds E = g.holds E := by
  refine holds_eq_of_narrowsOn hleaves ?_ hf.narrowsOn g h
  intro p q hp hpq
  rw [Path.eq_of_same_of_plain hp.plain hpq]

theorem Filter.holds_eq_of_parseFilter {E : Evaluator Record} (hleaves : E.LeavesAgree)
    {limits : Limits} {text : String} {f g : Filter} (hf : parseFilter limits text = .ok f)
    (h : f.same g = true) : f.holds E = g.holds E := by
  obtain ⟨c, after, hread⟩ := exists_read_of_parseFilter hf
  exact (Filter.read_wellFormed hread).holds_eq hleaves h

/-! ### The command -/

namespace Command

theorem Failure.status_ne_zero (failure : Failure) : failure.status ≠ 0 := by
  cases failure <;> simp [Failure.status]

/-- A comparison that succeeds is one of two texts that spell the same filter. -/
theorem same_of_execute {world : World} {limits : Limits} {style : Style} {i : Invocation}
    {line : String} (hcompare : i.subcommand = .compare)
    (h : execute world limits style i = .ok (line, 0)) :
    ∃ f g, parseFilter limits (i.operands[0]?.getD "") = .ok f ∧
      parseFilter limits (i.operands[1]?.getD "") = .ok g ∧ f.same g = true := by
  have filterOf_ok {text : String} {f : Filter} (hf : filterOf limits text = .ok f) :
      parseFilter limits text = .ok f := by
    unfold filterOf at hf
    cases hparse : parseFilter limits text with
    | error e =>
        rw [hparse] at hf
        cases hf
    | ok g =>
        rw [hparse] at hf
        cases hf
        rfl
  unfold execute at h
  rw [hcompare] at h
  obtain ⟨f, hf, h⟩ := Text.bind_eq_ok_iff.mp h
  obtain ⟨g, hg, h⟩ := Text.bind_eq_ok_iff.mp h
  refine ⟨f, g, filterOf_ok hf, filterOf_ok hg, ?_⟩
  by_contra hsame
  rw [if_neg hsame] at h
  cases h

/-- The command succeeds only by carrying out what it is asked, under some limits. -/
theorem exists_execute_of_run {world : World} {i : Invocation} (hi : world.invocation = .ok i)
    (h : (run world).status = 0) :
    ∃ limits style line, execute world limits style i = .ok (line, 0) := by
  have of_outcome {s : Settings} (hs : (outcome world i s).status = 0) :
      ∃ limits style line, execute world limits style i = .ok (line, 0) := by
    unfold outcome at hs
    dsimp only at hs
    split at hs
    · rename_i failure _
      exact absurd hs failure.status_ne_zero
    · rename_i line status hexecute
      obtain rfl : status = 0 := hs
      exact ⟨_, _, line, hexecute⟩
  unfold run at h
  rw [hi] at h
  dsimp only at h
  split at h
  · exact of_outcome h
  · split at h
    · rename_i failure _
      exact absurd h failure.status_ne_zero
    · exact of_outcome h

end Command

/-! ### The law -/

/-- **Filters that are the same mean the same**: they hold of the same records, for every
evaluator that gives the same answer on the same paths and values.  Of two filters that are read
this is so even if the evaluator tells the paths of value filters apart, since those are equal;
so the command calls no two texts equivalent that mean something else. -/
theorem Filter.holds_eq_of_same (E : Evaluator Record) (hleaves : E.LeavesAgree) :
    ((∀ p q : Path, p.same q = true → E.hasValue p = E.hasValue q) →
      ∀ f g : Filter, f.same g = true → ∀ r, f.holds E r = g.holds E r) ∧
    (∀ limits limits' text text' f g, parseFilter limits text = .ok f →
      parseFilter limits' text' = .ok g → f.same g = true → ∀ r, f.holds E r = g.holds E r) ∧
    ∀ (world : Command.World) i, world.invocation = .ok i → i.subcommand = .compare →
      (Command.run world).status = 0 →
      ∃ limits f g, parseFilter limits (i.operands[0]?.getD "") = .ok f ∧
        parseFilter limits (i.operands[1]?.getD "") = .ok g ∧
        ∀ r, f.holds E r = g.holds E r := by
  refine ⟨?_, ?_, ?_⟩
  · intro hvalue f g h r
    have hf : f.NarrowsOn fun _ => True := (narrowsOn_steps fun _ => trivial).filter f
    rw [holds_eq_of_narrowsOn hleaves (fun _ => hvalue _ _) hf g h]
  · intro limits limits' text text' f g hf _ h r
    rw [holds_eq_of_parseFilter hleaves hf h]
  · intro world i hi hcompare hstatus
    obtain ⟨limits, style, line, h⟩ := Command.exists_execute_of_run hi hstatus
    obtain ⟨f, g, hf, hg, hsame⟩ := Command.same_of_execute hcompare h
    refine ⟨limits, f, g, hf, hg, ?_⟩
    intro r
    rw [holds_eq_of_parseFilter hleaves hf hsame]

end

/-! ### An evaluator -/

theorem Path.same_congr {p q : Path} (h : p.same q = true) : p.same = q.same := by
  funext r
  rw [Bool.eq_iff_iff]
  constructor
  · intro hpr
    exact Filter.same_trans_steps.path _ _ _ (Filter.same_symm_steps.path _ _ h) hpr
  · intro hqr
    exact Filter.same_trans_steps.path _ _ _ h hqr

theorem Value.same_congr {v w : Value} (h : v.same w = true) : v.same = w.same := by
  funext x
  rw [Bool.eq_iff_iff]
  constructor
  · intro hvx
    exact Value.same_equiv.trans (Value.same_equiv.symm h) hvx
  · intro hwx
    exact Value.same_equiv.trans h hwx

/-- Records that list attributes with their values: an attribute compares with the values listed
for it, and its values satisfy a value filter if the record does. -/
def Evaluator.ofTable : Evaluator (List (Path × Value)) where
  compares op path value r :=
    r.any fun entry => op == .eq && path.same entry.1 && value.same entry.2
  isPresent path r := r.any fun entry => path.same entry.1
  hasValue path holds r := r.any (fun entry => path.same entry.1) && holds r

theorem Evaluator.ofTable_leavesAgree : ofTable.LeavesAgree where
  compares _ _ _ _ _ hpq hvw := by
    simp only [ofTable, Path.same_congr hpq, Value.same_congr hvw]
  isPresent hpq := by
    simp only [ofTable, Path.same_congr hpq]

/-- A filter whose value filter narrows a path that has one already. -/
def Filter.narrowedTwice (x y : String) : Filter :=
  .complex
    (.subWhere .resource "e" (.and [.present (.coreAttribute x), .present (.coreAttribute y)]))
    (.present (.coreAttribute "c"))

/-- Filters with their operands in another order: two that are put together, two that are read,
and two that the command compares. -/
theorem Filter.holds_eq_of_same_reordered :
    (narrowedTwice "a" "b").same (narrowedTwice "b" "a") = true ∧
    (∀ r, (narrowedTwice "a" "b").holds .ofTable r = (narrowedTwice "b" "a").holds .ofTable r) ∧
    (∃ f g, parseFilter {} "e[a pr and b eq 1]" = .ok f ∧
      parseFilter {} "e[b eq 1 and a pr and b eq 1]" = .ok g ∧
      ∀ r, f.holds .ofTable r = g.holds .ofTable r) ∧
    ∃ limits f g, parseFilter limits "a pr or b pr" = .ok f ∧
      parseFilter limits "b pr or a pr" = .ok g ∧ ∀ r, f.holds .ofTable r = g.holds .ofTable r := by
  obtain ⟨hall, hread, hcommand⟩ := Filter.holds_eq_of_same _ Evaluator.ofTable_leavesAgree
  refine ⟨by decide +kernel, ?_, ?_, ?_⟩
  · refine hall ?_ _ _ (by decide +kernel)
    intro p q hpq
    simp only [Evaluator.ofTable, Path.same_congr hpq]
  · have hspell : ((parseFilter {} "e[a pr and b eq 1]").toOption.bind fun f =>
        (parseFilter {} "e[b eq 1 and a pr and b eq 1]").toOption.map f.same) = some true := by
      decide +kernel
    obtain ⟨f, hf, hspell⟩ := Option.bind_eq_some_iff.mp hspell
    obtain ⟨g, hg, hsame⟩ := Option.map_eq_some_iff.mp hspell
    rw [Text.toOption_eq_some_iff] at hf hg
    exact ⟨f, g, hf, hg, hread _ _ _ _ f g hf hg hsame⟩
  · exact hcommand
      { args := ["compare", "a pr or b pr", "b pr or a pr"]
        env := fun name => if name = "HOME" then some "/home/scim" else none
        accountHome := none
        contents := fun _ => .error .notFound
        stdin := ByteArray.empty }
      { subcommand := .compare, operands := ["a pr or b pr", "b pr or a pr"] }
      (by decide +kernel) rfl (by decide +kernel)

/-- If the evaluator tells the paths of value filters apart although they are the same, then it
tells apart filters that are the same. -/
theorem Filter.same_told_apart : ∃ E : Evaluator Unit, E.LeavesAgree ∧
    (narrowedTwice "a" "b").same (narrowedTwice "b" "a") = true ∧
    (narrowedTwice "a" "b").holds E () = true ∧ (narrowedTwice "b" "a").holds E () = false := by
  refine ⟨⟨fun _ _ _ _ => true, fun _ _ => true, fun p _ _ => p.text == "e[(a pr and b pr)]"⟩,
    ⟨fun _ _ _ _ _ _ _ => rfl, fun _ => rfl⟩, ?_⟩
  decide +kernel

end ScimQuery
