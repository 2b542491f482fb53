import Mathlib.Data.List.Sort
import ScimQuery.Filter.Canonical
import ScimQuery.Filter.Hash
import ScimQuery.Proofs.Filter.Equality

/-!
# Filter — equal filters hash alike

Filters that are the same feed the same items to a hasher, and so do paths; hence they have the
same hash, whatever the hasher makes of the items (`Filter.hash_eq_of_same`).

* `sortedWords_congr`: the words in increasing order, each of them once, depend only on which
  words there are.  So operands that match feed the same, even where hashes collide.
* `Filter.rearrange`: the operands of every `and` and `or` rearranged, at any depth and inside
  the value filters of paths.  Only the order and the repetition of operands change, and the
  filter stays the same.
-/

namespace ScimQuery

/-! ### Words in increasing order -/

theorem eraseReps_loop (w : UInt64) (ws acc : List UInt64) :
    List.eraseRepsBy.loop (· == ·) w ws acc = acc.reverse ++ (w :: ws).eraseReps := by
  have hstart (w : UInt64) (ws : List UInt64) :
      (w :: ws).eraseReps = List.eraseRepsBy.loop (· == ·) w ws [] := rfl
  rw [hstart]
  induction ws generalizing w acc with
  | nil => simp [List.eraseRepsBy.loop]
  | cons v ws ih =>
      cases hwv : w == v with
      | true => simp only [List.eraseRepsBy.loop, hwv, ih w acc]
      | false =>
          simp only [List.eraseRepsBy.loop, hwv]
          rw [ih v (w :: acc), ih v [w]]
          simp

theorem eraseReps_cons_cons (v w : UInt64) (ws : List UInt64) :
    (v :: w :: ws).eraseReps =
      if v = w then (w :: ws).eraseReps else v :: (w :: ws).eraseReps := by
  have hstep : (v :: w :: ws).eraseReps =
      match v == w with
      | true => List.eraseRepsBy.loop (· == ·) v ws []
      | false => List.eraseRepsBy.loop (· == ·) w ws [v] := rfl
  rw [hstep]
  by_cases h : v = w
  · subst h
    simp [eraseReps_loop]
  · simp [h, beq_false_of_ne h, eraseReps_loop]

theorem mem_eraseReps {v : UInt64} : ∀ {ws : List UInt64}, v ∈ ws.eraseReps ↔ v ∈ ws
  | [] => Iff.rfl
  | [_] => Iff.rfl
  | w :: w' :: ws => by
      have hrest : v ∈ (w' :: ws).eraseReps ↔ v ∈ w' :: ws := mem_eraseReps
      rw [eraseReps_cons_cons]
      by_cases h : w = w'
      · rw [if_pos h, hrest, h]
        simp
      · rw [if_neg h, List.mem_cons, List.mem_cons, hrest]

/-- Words in order, without the repeated ones, increase strictly. -/
theorem eraseReps_increasing : ∀ {ws : List UInt64}, ws.Pairwise (· ≤ ·) →
    ws.eraseReps.Pairwise (· < ·)
  | [], _ => List.Pairwise.nil
  | [w], _ => List.pairwise_singleton _ w
  | v :: w :: ws, h => by
      obtain ⟨hv, hws⟩ := List.pairwise_cons.mp h
      have hrest := eraseReps_increasing hws
      rw [eraseReps_cons_cons]
      by_cases hvw : v = w
      · rw [if_pos hvw]
        exact hrest
      · rw [if_neg hvw]
        refine List.pairwise_cons.mpr ⟨?_, hrest⟩
        intro u hu
        have hlt : v < w := UInt64.lt_of_le_of_ne (hv w List.mem_cons_self) hvw
        rcases List.mem_cons.mp (mem_eraseReps.mp hu) with rfl | hu
        · exact hlt
        · exact UInt64.lt_of_lt_of_le hlt ((List.pairwise_cons.mp hws).1 u hu)

theorem mem_sortedWords {w : UInt64} {ws : List UInt64} : w ∈ sortedWords ws ↔ w ∈ ws :=
  mem_eraseReps.trans List.mem_mergeSort

theorem sortedWords_increasing (ws : List UInt64) : (sortedWords ws).Pairwise (· < ·) := by
  have hsorted : (ws.mergeSort (fun a b => decide (a ≤ b))).Pairwise
      (fun a b => decide (a ≤ b) = true) := by
    refine List.pairwise_mergeSort ?_ ?_ ws
    · intro a b c hab hbc
      exact decide_eq_true (UInt64.le_trans (of_decide_eq_true hab) (of_decide_eq_true hbc))
    · intro a b
      simpa using UInt64.le_total a b
  exact eraseReps_increasing (hsorted.imp of_decide_eq_true)

/-- Lists of the same words are the same in increasing order, each word once. -/
theorem sortedWords_congr {vs ws : List UInt64} (h : ∀ w, w ∈ vs ↔ w ∈ ws) :
    sortedWords vs = sortedWords ws := by
  have : @Std.Irrefl UInt64 (· < ·) := ⟨UInt64.lt_irrefl⟩
  have : @Std.Antisymm UInt64 (· < ·) :=
    ⟨fun _ _ hab hba => absurd (UInt64.lt_trans hab hba) (UInt64.lt_irrefl _)⟩
  refine (sortedWords_increasing vs).eq_of_mem_iff (sortedWords_increasing ws) ?_
  intro w
  rw [mem_sortedWords, mem_sortedWords, h]

/-! ### What is fed -/

/-- Numbers that are the same feed the same. -/
def Hasher.AgreesOnNumbers (h : Hasher) : Prop :=
  ∀ m n : Number, m.same n = true → h.number m = h.number n

section Fed

variable {h : Hasher}

theorem Value.hashItems_congr (hh : h.AgreesOnNumbers) {v w : Value} (hvw : v.same w = true) :
    v.hashItems h = w.hashItems h := by
  rcases Value.same_iff.mp hvw with rfl | ⟨m, n, rfl, rfl, hmn⟩
  · rfl
  · exact congrArg (HashItem.variant 2 :: ·) (hh m n hmn)

/-- Operands that match, and feed the same where they are the same, have the same hashes but for
order and repetition. -/
theorem Filter.sortedWords_operandHashes {fs gs : List Filter} (hmatch : Filter.Match fs gs)
    (hfs : ∀ f ∈ fs, ∀ g, f.same g = true → f.hashItems h = g.hashItems h) :
    sortedWords (Filter.operandHashes h fs) = sortedWords (Filter.operandHashes h gs) := by
  refine sortedWords_congr ?_
  intro w
  rw [operandHashes_eq_map, operandHashes_eq_map, List.mem_map, List.mem_map]
  constructor
  · rintro ⟨f, hf, rfl⟩
    obtain ⟨g, hg, hfg⟩ := hmatch.1 f hf
    exact ⟨g, hg, congrArg h.operand (hfs f hf g hfg).symm⟩
  · rintro ⟨g, hg, rfl⟩
    obtain ⟨f, hf, hfg⟩ := hmatch.2 g hg
    exact ⟨f, hf, congrArg h.operand (hfs f hf g hfg)⟩

/-- Two paths feed the same: their schemas and lengths agree, and so does what their attributes
feed. -/
def Path.FeedsAlike (h : Hasher) (p q : Path) : Prop :=
  p.urn = q.urn ∧ p.length = q.length ∧ p.elementItems h = q.elementItems h

theorem Path.FeedsAlike.hashItems {p q : Path} (hpq : Path.FeedsAlike h p q) :
    p.hashItemsOf (p.elementItems h) = q.hashItemsOf (q.elementItems h) := by
  obtain ⟨hurn, hlength, helements⟩ := hpq
  rw [Path.hashItemsOf, Path.hashItemsOf, hurn, hlength, helements]

theorem Filter.feeds_steps (hh : h.AgreesOnNumbers) :
    Filter.InductionSteps (fun f => ∀ g, f.same g = true → f.hashItems h = g.hashItems h)
      (fun p => ∀ q, p.same q = true → Path.FeedsAlike h p q) where
  compare op p v hp _ hsame := by
    obtain ⟨q, w, rfl, hpq, hvw⟩ := compare_same_iff.mp hsame
    rw [hashItems, hashItems, (hp q hpq).hashItems, Value.hashItems_congr hh hvw]
  present p hp _ hsame := by
    obtain ⟨q, rfl, hpq⟩ := present_same_iff.mp hsame
    rw [hashItems, hashItems, (hp q hpq).hashItems]
  join j fs hfs _ hsame := by
    obtain ⟨gs, rfl, hmatch⟩ := join_same_iff.mp hsame
    have hwords := sortedWords_operandHashes hmatch hfs
    cases j <;> simp only [join, hashItems, hwords]
  not f hf _ hsame := by
    obtain ⟨g, rfl, hfg⟩ := not_same_iff.mp hsame
    rw [hashItems, hashItems, hf g hfg]
  complex p f hp hf _ hsame := by
    obtain ⟨q, g, rfl, hpq, hfg⟩ := complex_same_iff.mp hsame
    rw [hashItems, hashItems, (hp q hpq).hashItems, hf g hfg]
  root urn _ hsame := by
    obtain rfl := Path.root_same_iff.mp hsame
    exact ⟨rfl, rfl, rfl⟩
  sub p name hp _ hsame := by
    obtain ⟨q, rfl, hpq⟩ := Path.sub_same_iff.mp hsame
    obtain ⟨hurn, hlength, helements⟩ := hp q hpq
    exact ⟨hurn, congrArg (· + 1) hlength, congrArg (· ++ _) helements⟩
  subWhere p name f hp hf _ hsame := by
    obtain ⟨q, g, rfl, hpq, hfg⟩ := Path.subWhere_same_iff.mp hsame
    obtain ⟨hurn, hlength, helements⟩ := hp q hpq
    refine ⟨hurn, congrArg (· + 1) hlength, ?_⟩
    rw [Path.elementItems, Path.elementItems, helements, hf g hfg]

end Fed

/-! ### Operands rearranged -/

mutual

/-- The filter with the operands of every `and` and `or` rearranged by `ρ`. -/
def Filter.rearrange (ρ : List Filter → List Filter) : Filter → Filter
  | .compare op p v => .compare op (p.rearrange ρ) v
  | .present p => .present (p.rearrange ρ)
  | .and fs => .and (ρ (Filter.rearrangeAll ρ fs))
  | .or fs => .or (ρ (Filter.rearrangeAll ρ fs))
  | .not f => .not (f.rearrange ρ)
  | .complex p f => .complex (p.rearrange ρ) (f.rearrange ρ)

/-- The filters, each with its operands rearranged. -/
def Filter.rearrangeAll (ρ : List Filter → List Filter) : List Filter → List Filter
  | [] => []
  | f :: fs => f.rearrange ρ :: Filter.rearrangeAll ρ fs

/-- The path with the operands in its value filters rearranged. -/
def Path.rearrange (ρ : List Filter → List Filter) : Path → Path
  | .root urn => .root urn
  | .sub p name => .sub (p.rearrange ρ) name
  | .subWhere p name f => .subWhere (p.rearrange ρ) name (f.rearrange ρ)

end

section Rearranged

variable {ρ : List Filter → List Filter}

theorem Filter.rearrangeAll_eq_map (fs : List Filter) :
    Filter.rearrangeAll ρ fs = fs.map (Filter.rearrange ρ) := by
  induction fs with
  | nil => rfl
  | cons f fs ih => exact congrArg _ ih

theorem Filter.rearrange_join (j : Junction) (fs : List Filter) :
    (join j fs).rearrange ρ = join j (ρ (fs.map (rearrange ρ))) := by
  rw [← rearrangeAll_eq_map]
  cases j <;> rfl

/-- A filter is the same after its operands have been put in another order or repeated. -/
theorem Filter.same_rearrange_steps (hρ : ∀ fs f, f ∈ ρ fs ↔ f ∈ fs) :
    Filter.InductionSteps (fun f => f.same (f.rearrange ρ) = true)
      (fun p => p.same (p.rearrange ρ) = true) where
  compare _ _ v hp := compare_same_iff.mpr ⟨_, v, rfl, hp, Value.same_equiv.refl v⟩
  present _ hp := present_same_iff.mpr ⟨_, rfl, hp⟩
  join j fs hfs := by
    rw [rearrange_join]
    refine join_same_join.mpr ⟨?_, ?_⟩
    · intro f hf
      exact ⟨f.rearrange ρ, (hρ _ _).mpr (List.mem_map_of_mem hf), hfs f hf⟩
    · intro g hg
      obtain ⟨f, hf, rfl⟩ := List.mem_map.mp ((hρ _ _).mp hg)
      exact ⟨f, hf, hfs f hf⟩
  not _ hf := not_same_iff.mpr ⟨_, rfl, hf⟩
  complex _ _ hp hf := complex_same_iff.mpr ⟨_, _, rfl, hp, hf⟩
  root _ := Path.root_same_iff.mpr rfl
  sub _ _ hp := Path.sub_same_iff.mpr ⟨_, rfl, hp⟩
  subWhere _ _ _ hp hf := Path.subWhere_same_iff.mpr ⟨_, _, rfl, hp, hf⟩

end Rearranged

/-! ### Hashes -/

/-- **Filters that are the same have the same hash**, and so do paths.  In particular neither the
order nor the repetition of operands changes a hash, at any depth. -/
theorem Filter.hash_eq_of_same (h : Hasher) (hh : h.AgreesOnNumbers) :
    (∀ f g : Filter, f.same g = true → f.hash h = g.hash h) ∧
      (∀ p q : Path, p.same q = true → p.hash h = q.hash h) ∧
      ∀ ρ : List Filter → List Filter, (∀ fs f, f ∈ ρ fs ↔ f ∈ fs) →
        (∀ f : Filter, f.hash h = (f.rearrange ρ).hash h) ∧
          ∀ p : Path, p.hash h = (p.rearrange ρ).hash h := by
  have hfilter (f g : Filter) (hfg : f.same g = true) : f.hash h = g.hash h :=
    congrArg h.finish ((feeds_steps hh).filter f g hfg)
  have hpath (p q : Path) (hpq : p.same q = true) : p.hash h = q.hash h :=
    congrArg h.finish ((feeds_steps hh).path p q hpq).hashItems
  refine ⟨hfilter, hpath, ?_⟩
  intro ρ hρ
  exact ⟨fun f => hfilter f _ ((same_rearrange_steps hρ).filter f),
    fun p => hpath p _ ((same_rearrange_steps hρ).path p)⟩

/-- One word for an item. -/
def HashItem.weight : HashItem → UInt64
  | .variant number => UInt64.ofNat number
  | .length n => UInt64.ofNat n
  | .text s => s.toList.foldl (fun w c => 31 * w + UInt64.ofNat c.toNat) 7
  | .bool b => if b then 1 else 0
  | .word w => w

/-- A polynomial hasher.  It takes in a number by its bits, and both zeros by those of the one
without a sign. -/
def Hasher.polynomial : Hasher where
  finish items := items.foldl (fun w item => 31 * w + item.weight) 17
  operand items := items.foldl (fun w item => 31 * w + item.weight) 17
  number
    | .whole n => [.word (UInt64.ofInt n.val)]
    | .double d => [.word (UInt64.ofNat (if d.magnitude = 0 then 0 else d.bits))]

theorem Hasher.polynomial_agreesOnNumbers : Hasher.polynomial.AgreesOnNumbers := by
  rintro (m | a) (n | b) h
  · have hmn : m.val = n.val := by simpa [Number.same] using h
    simp only [polynomial, hmn]
  · cases h
  · cases h
  · obtain ⟨hmagnitude, hsign⟩ := Number.Double.same_iff.mp h
    rcases hsign with hsign | hzero
    · simp only [polynomial, Number.Double.bits, hmagnitude, hsign]
    · simp only [polynomial, hzero, hmagnitude ▸ hzero, if_true]

/-- Two zeros, and operands in another order and repeated, at the top and inside the value filter
of a path. -/
theorem Filter.hash_eq_of_same_reordered : ∃ f g : Filter,
    f.text = "(a eq 0.0 and emails[(x pr or y pr)].z pr)" ∧
      g.text = "(emails[(y pr or x pr or y pr)].z pr and a eq -0.0)" ∧ f.same g = true ∧
      f.hash .polynomial = g.hash .polynomial ∧
      f.hash .polynomial = (f.rearrange List.reverse).hash .polynomial := by
  let has (name : String) : Filter := .present (.coreAttribute name)
  let emails (f : Filter) : Filter := .present ((Path.resource.subWhere "emails" f).sub "z")
  let zero (negative : Bool) : Filter :=
    .compare .eq (.coreAttribute "a") (.number (.double (.zero negative)))
  obtain ⟨hfilter, -, hrearranged⟩ :=
    Filter.hash_eq_of_same .polynomial Hasher.polynomial_agreesOnNumbers
  refine ⟨.and [zero false, emails (.or [has "x", has "y"])],
    .and [emails (.or [has "y", has "x", has "y"]), zero true],
    by decide +kernel, by decide +kernel, by decide +kernel, ?_, ?_⟩
  · exact hfilter _ _ (by decide +kernel)
  · exact (hrearranged List.reverse (fun _ _ => List.mem_reverse)).1 _

end ScimQuery
