import ScimQuery.Proofs.Filter.Precedence
import ScimQuery.Proofs.Filter.RoundTrip
import ScimQuery.Proofs.Path.Readable

/-!
# Filter — how deep a filter nests that was read

Between two delimiters of a text there may be a disjunction, and conjunctions in it: two nodes on
a branch for which the text has no parentheses.  The delimiters themselves make one node more.  So
the limit on nesting bounds the branches of every filter that is read, however long its text is.

* `Filter.heaviest`: the largest total weight of the nodes on a branch.  The height of a filter
  (`Filter.height`) and the number of its nodes that negate or narrow (`Filter.enclosing`) are two
  of these, and so is `Filter.nest`.
* `Descent.heaviest_of_sequence`: the bound on what is between delimiters, from the largest weights
  of the three kinds of nodes.  The recursion is that of recursive descent, one statement for each
  of its rules.
* `height_of_parse`: the bounds on the height of filters and of the value filters of paths.
-/

namespace ScimQuery

open Text (Cursor)

/-! ### Weights of branches -/

mutual

/-- The largest total weight of the nodes on a branch of a filter. -/
def Filter.heaviest (w : Filter → Nat) : Filter → Nat
  | .compare op path value => w (.compare op path value)
  | .present path => w (.present path)
  | .and operands => w (.and operands) + Filter.heaviestOf w operands
  | .or operands => w (.or operands) + Filter.heaviestOf w operands
  | .not operand => w (.not operand) + operand.heaviest w
  | .complex path filter => w (.complex path filter) + filter.heaviest w

/-- The largest of these weights among some filters. -/
def Filter.heaviestOf (w : Filter → Nat) : List Filter → Nat
  | [] => 0
  | f :: fs => max (f.heaviest w) (Filter.heaviestOf w fs)

end

/-- The number of nodes on the longest branch of a filter. -/
def Filter.height (f : Filter) : Nat :=
  f.heaviest fun _ => 1

/-- One for a node that negates or narrows. -/
def Filter.enclosingWeight : Filter → Nat
  | .not _ => 1
  | .complex _ _ => 1
  | _ => 0

/-- The largest number of nodes on a branch of a filter that negate or narrow. -/
def Filter.enclosing (f : Filter) : Nat :=
  f.heaviest Filter.enclosingWeight

/-- One for a node that joins, negates or narrows. -/
def Filter.nestWeight : Filter → Nat
  | .compare _ _ _ => 0
  | .present _ => 0
  | _ => 1

/-- No node that joins weighs more than `join`, none that negates or narrows more than `guard`, and
no condition more than `leaf`. -/
structure Filter.Weighs (w : Filter → Nat) (join guard leaf : Nat) : Prop where
  join : ∀ j fs, w (.join j fs) ≤ join
  not : ∀ f, w (.not f) ≤ guard
  complex : ∀ p f, w (.complex p f) ≤ guard
  compare : ∀ op p v, w (.compare op p v) ≤ leaf
  present : ∀ p, w (.present p) ≤ leaf

mutual

theorem Filter.nest_eq_heaviest : ∀ f : Filter, f.nest = f.heaviest Filter.nestWeight
  | .compare _ _ _ => rfl
  | .present _ => rfl
  | .and fs => by
      rw [Filter.nest, Filter.heaviest, Filter.nestAll_eq_heaviestOf fs, Nat.add_comm]
      rfl
  | .or fs => by
      rw [Filter.nest, Filter.heaviest, Filter.nestAll_eq_heaviestOf fs, Nat.add_comm]
      rfl
  | .not f => by
      rw [Filter.nest, Filter.heaviest, Filter.nest_eq_heaviest f, Nat.add_comm]
      rfl
  | .complex p f => by
      rw [Filter.nest, Filter.heaviest, Filter.nest_eq_heaviest f, Nat.add_comm]
      rfl

theorem Filter.nestAll_eq_heaviestOf : ∀ fs : List Filter,
    Filter.nestAll fs = Filter.heaviestOf Filter.nestWeight fs
  | [] => rfl
  | f :: fs => by
      rw [Filter.nestAll, Filter.heaviestOf, Filter.nest_eq_heaviest f,
        Filter.nestAll_eq_heaviestOf fs]

end

/-! ### Recursive descent -/

namespace Descent

variable {limits : Limits} {w : Filter → Nat} {join guard leaf : Nat}

/-- The weight of a sequence of filters, from that of its items. -/
theorem heaviest_joined (hw : Filter.Weighs w join guard leaf) (j : Junction) :
    ∀ fs : List Filter, (Filter.joined j fs).heaviest w ≤ join + Filter.heaviestOf w fs := by
  have of_join (fs : List Filter) :
      (Filter.join j fs).heaviest w ≤ join + Filter.heaviestOf w fs := by
    have hjoin := Nat.add_le_add_right (hw.join j fs) (Filter.heaviestOf w fs)
    cases j <;> exact hjoin
  intro fs
  match fs with
  | [] => exact of_join []
  | [f] => exact Nat.le_add_left_of_le (Nat.le_max_left (f.heaviest w) 0)
  | f :: g :: more => exact of_join (f :: g :: more)

theorem heaviest_of_condition (hw : Filter.Weighs w join guard leaf) {region : Region}
    {word : List Char} {c : Cursor} {f : Filter} {e : From c}
    (h : condition region word c = some (f, e)) : f.heaviest w ≤ leaf := by
  unfold condition at h
  split at h
  · split at h
    · cases h
      exact hw.present _
    · split at h
      · cases h
        exact hw.compare _ _ _
      · cases h
  · cases h

/-- What the items of a sequence may weigh beside what is between delimiters in them: those of a
disjunction may be conjunctions. -/
def bare (join : Nat) : Junction → Nat
  | .and => 0
  | .or => join

mutual

theorem heaviest_of_sequence (hw : Filter.Weighs w join guard leaf) {region : Region}
    {depth : Nat} {j : Junction} {c : Cursor} {f : Filter} {e : From c}
    (h : sequence limits region depth j c = some (f, e)) :
    f.heaviest w ≤
      join + (bare join j + ((2 * join + guard) * (limits.maxDepth - depth) + leaf)) := by
  rw [sequence] at h
  split at h
  · cases h
  · rename_i g d hd hitem
    split at h
    · cases h
    · rename_i fs d' hd' hmore
      cases h
      have hitem := heaviest_of_item hw hitem
      have hmore := heaviest_of_more hw hmore
      exact Nat.le_trans (heaviest_joined hw j (g :: fs))
        (Nat.add_le_add_left (Nat.max_le.mpr ⟨hitem, hmore⟩) join)
termination_by (c.rest.length, match j with | .or => 5 | .and => 3)
decreasing_by
  · cases j <;> decreasing_tactic
  · exact Prod.Lex.right' _ (by assumption) (by cases j <;> decide)

theorem heaviest_of_item (hw : Filter.Weighs w join guard leaf) {region : Region} {depth : Nat}
    {j : Junction} {c : Cursor} {f : Filter} {e : From c}
    (h : item limits region depth j c = some (f, e)) :
    f.heaviest w ≤ bare join j + ((2 * join + guard) * (limits.maxDepth - depth) + leaf) := by
  cases j with
  | or =>
      rw [item] at h
      have hsequence := heaviest_of_sequence hw h
      rwa [bare, Nat.zero_add] at hsequence
  | and =>
      rw [item] at h
      rw [bare, Nat.zero_add]
      exact heaviest_of_term hw h
termination_by (c.rest.length, match j with | .or => 4 | .and => 2)

theorem heaviest_of_more (hw : Filter.Weighs w join guard leaf) {region : Region} {depth : Nat}
    {j : Junction} {c : Cursor} {fs : List Filter} {e : From c}
    (h : more limits region depth j c = some (fs, e)) :
    Filter.heaviestOf w fs ≤
      bare join j + ((2 * join + guard) * (limits.maxDepth - depth) + leaf) := by
  rw [more] at h
  split at h
  · cases h
  · rename_i word next hnext htoken
    split at h
    · split at h
      · cases h
      · rename_i g d hd hitem
        split at h
        · cases h
        · rename_i gs d' hd' hmore
          cases h
          have hitem := heaviest_of_item hw hitem
          have hmore := heaviest_of_more hw hmore
          exact Nat.max_le.mpr ⟨hitem, hmore⟩
    · cases h
      exact Nat.zero_le _
  · cases h
    exact Nat.zero_le _
termination_by (c.rest.length, 0)

theorem heaviest_of_term (hw : Filter.Weighs w join guard leaf) {region : Region} {depth : Nat}
    {c : Cursor} {f : Filter} {e : From c} (h : term limits region depth c = some (f, e)) :
    f.heaviest w ≤ (2 * join + guard) * (limits.maxDepth - depth) + leaf := by
  rw [term] at h
  split at h
  · rename_i next hnext htoken
    split at h
    · cases h
    · rename_i g d hd henclosed
      cases h
      exact Nat.le_of_add_left_le (heaviest_of_enclosed hw henclosed)
  · rename_i word next hnext htoken
    split at h
    · split at h
      · rename_i inner hinner hparen
        split at h
        · cases h
        · rename_i g d hd henclosed
          cases h
          exact Nat.le_trans (Nat.add_le_add_right (hw.not g) _) (heaviest_of_enclosed hw henclosed)
      · cases h
    · split at h
      · cases h
      · rename_i g d hd hcondition
        cases h
        exact Nat.le_add_left_of_le (heaviest_of_condition hw hcondition)
  · split at h
    · rename_i p g d hd hpath henclosed
      cases h
      exact Nat.le_trans (Nat.add_le_add_right (hw.complex p g) _)
        (heaviest_of_enclosed hw henclosed)
    · cases h
  · cases h
termination_by (c.rest.length, 1)

/-- What is between delimiters leaves room for the node that they make. -/
theorem heaviest_of_enclosed (hw : Filter.Weighs w join guard leaf) {region : Region}
    {close : Token} {depth : Nat} {c : Cursor} {f : Filter} {e : From c}
    (h : enclosed limits region close depth c = some (f, e)) :
    guard + f.heaviest w ≤ (2 * join + guard) * (limits.maxDepth - depth) + leaf := by
  rw [enclosed] at h
  split at h
  · cases h
  · rename_i hdepth
    split at h
    · cases h
    · rename_i g d hd hsequence
      split at h
      · split at h
        · cases h
          have hinner := heaviest_of_sequence hw hsequence
          have hlevels : limits.maxDepth - depth = limits.maxDepth - (depth + 1) + 1 := by omega
          rw [hlevels, Nat.mul_succ]
          rw [bare] at hinner
          omega
        · cases h
      · cases h
termination_by (c.rest.length, 6)

end

end Descent

/-! ### Value filters of a path -/

/-- A value filter that is in no filter ends at its bracket. -/
theorem Reading.outcome_bracketed {limits : Limits} {f : Filter} {c : Cursor} (k n : Nat)
    (hc : ∀ j, Stops .valueFilter j c) :
    outcome limits (({ bracket := some k, depth := n } : Level).push f) [] c =
      match Descent.token .valueFilter c with
      | some (some (t, ⟨next, _⟩)) => if t = .closeBracket then some (f, next) else none
      | _ => none := by
  refine outcome_closing (l := ({ bracket := some k, depth := n } : Level).push f) rfl hc
    (fun g h => nomatch h) trivial ?_
  intro t place next hread ht
  rcases ht with rfl | rfl
  · rw [if_neg (by decide), outcome, run_closeGroup rfl hread, Level.closeGroup_unopened rfl]
    rfl
  · rw [if_pos rfl, outcome, run_closeValue rfl hread]
    rfl

/-- A value filter of a path is read like one of a filter at the outermost level. -/
theorem Descent.enclosed_of_readWithin {limits : Limits} {opened : Nat} {c : Cursor}
    {found : Filter × { d : Cursor // d.rest.length ≤ c.rest.length }}
    (h : Filter.readWithin limits opened c = .ok found) :
    enclosed limits .valueFilter .closeBracket 0 c = some found := by
  obtain ⟨f, next, hnext⟩ := found
  obtain ⟨hdepth, hrun⟩ := Filter.readWithin_eq_ok_iff.mp h
  have hbase : ({ bracket := some opened, depth := 1 } : Level).Base :=
    ⟨Level.opens_nil, fun _ => rfl⟩
  have houtcome : Reading.outcome limits { bracket := some opened, depth := 1 } [] c =
      some (f, next) :=
    Text.toOption_eq_some_iff.mpr hrun
  rw [Reading.outcome_disjunction [] hbase rfl] at houtcome
  obtain ⟨⟨g, d, hd⟩, hsequence, hclosed⟩ := Option.bind_eq_some_iff.mp houtcome
  rw [Reading.outcome_bracketed _ _ (disjunction_stops hsequence)] at hclosed
  have hinner : sequence limits .valueFilter (0 + 1) .or c = some (g, ⟨d, hd⟩) := hsequence
  split at hclosed
  · rename_i t e he htoken
    split at hclosed
    · rename_i hclose
      cases hclosed
      rw [enclosed, if_neg (by omega)]
      simp only [hinner, htoken, if_pos hclose]
    · cases hclosed
  · cases hclosed

/-! ### Whole texts -/

/-- The weight of a branch of a filter that was read. -/
theorem heaviest_of_parseFilter {limits : Limits} {w : Filter → Nat} {join guard leaf : Nat}
    (hw : Filter.Weighs w join guard leaf) {text : String} {f : Filter}
    (h : parseFilter limits text = .ok f) :
    f.heaviest w ≤ join + (join + ((2 * join + guard) * limits.maxDepth + leaf)) := by
  rw [← Text.toOption_eq_some_iff, parseFilter_toOption, Descent.parse] at h
  split at h
  · cases h
  · split at h
    · cases h
    · rename_i c hopen g d hd hsequence
      split at h
      · cases h
        exact Descent.heaviest_of_sequence hw hsequence
      · cases h

/-- The weight of a branch of a value filter of a path that was read. -/
theorem heaviest_of_parsePath {limits : Limits} {w : Filter → Nat} {join guard leaf : Nat}
    (hw : Filter.Weighs w join guard leaf) {text : String} {p : Path}
    (h : parsePath limits text = .ok p) : ∀ e ∈ p.elements, ∀ f ∈ e.2,
      guard + f.heaviest w ≤ (2 * join + guard) * limits.maxDepth + leaf := by
  obtain ⟨c, -, h⟩ := Text.bind_eq_ok_iff.mp h
  obtain ⟨⟨q, after⟩, hread, h⟩ := Text.bind_eq_ok_iff.mp h
  cases h
  have hstart : Path.Resumes (fun f => guard + f.heaviest w ≤
      (2 * join + guard) * limits.maxDepth + leaf) c none := trivial
  refine (Path.readable_iff_elements.mp (Path.readFrom_readable ?_ hstart hread)).2
  intro opened d found hwithin
  exact Descent.heaviest_of_enclosed hw (Descent.enclosed_of_readWithin hwithin)

/-- **A filter that was read nests at most thrice as deep as the limit, and two nodes more.** -/
theorem nest_le_of_parseFilter {limits : Limits} {text : String} {f : Filter}
    (h : parseFilter limits text = .ok f) : f.nest ≤ 3 * limits.maxDepth + 2 := by
  have hweighs : Filter.Weighs Filter.nestWeight 1 1 0 :=
    ⟨fun j _ => by cases j <;> exact Nat.le_refl 1, fun _ => Nat.le_refl 1,
      fun _ _ => Nat.le_refl 1, fun _ _ _ => Nat.le_refl 0, fun _ => Nat.le_refl 0⟩
  have hheaviest := heaviest_of_parseFilter hweighs h
  rw [← Filter.nest_eq_heaviest] at hheaviest
  omega

/-- **The limit on nesting bounds the height of what is read**, whatever the text: that of a filter,
the number of nodes on a branch of it that negate or narrow, and the height of each value filter of
a path. -/
theorem height_of_parse (limits : Limits) (text : String) :
    (∀ f, parseFilter limits text = .ok f →
      f.height ≤ 3 * (limits.maxDepth + 1) ∧ f.enclosing ≤ limits.maxDepth) ∧
    ∀ p, parsePath limits text = .ok p →
      ∀ e ∈ p.elements, ∀ f ∈ e.2, f.height ≤ 3 * limits.maxDepth := by
  have hheight : Filter.Weighs (fun _ => 1) 1 1 1 :=
    ⟨fun _ _ => Nat.le_refl 1, fun _ => Nat.le_refl 1, fun _ _ => Nat.le_refl 1,
      fun _ _ _ => Nat.le_refl 1, fun _ => Nat.le_refl 1⟩
  have henclosing : Filter.Weighs Filter.enclosingWeight 0 1 0 :=
    ⟨fun j _ => by cases j <;> exact Nat.le_refl 0, fun _ => Nat.le_refl 1,
      fun _ _ => Nat.le_refl 1, fun _ _ _ => Nat.le_refl 0, fun _ => Nat.le_refl 0⟩
  refine ⟨?_, ?_⟩
  · intro f hf
    have hall := heaviest_of_parseFilter hheight hf
    have hsome := heaviest_of_parseFilter henclosing hf
    rw [Filter.height, Filter.enclosing]
    omega
  · intro p hp e he f hf
    have hall := heaviest_of_parsePath hheight hp e he f hf
    rw [Filter.height]
    omega

/-- The bounds are reached under a limit of one. -/
theorem height_of_parse_reached : ∃ f p g,
    parseFilter { maxDepth := 1 } "not (a pr and b pr or c pr) and d pr or e pr" = .ok f ∧
      (f.height ≤ 3 * (1 + 1) ∧ f.enclosing ≤ 1) ∧ f.height = 6 ∧ f.enclosing = 1 ∧
      parsePath { maxDepth := 1 } "a.b[c pr and d pr or e pr]" = .ok p ∧
      ("b", some g) ∈ p.elements ∧ g.height ≤ 3 * 1 ∧ g.height = 3 := by
  have hfilter : (parseFilter { maxDepth := 1 }
      "not (a pr and b pr or c pr) and d pr or e pr").toOption.map
        (fun f => (f.height, f.enclosing)) = some (6, 1) := by decide +kernel
  have hpath : (parsePath { maxDepth := 1 } "a.b[c pr and d pr or e pr]").toOption.map
      (fun p => p.elements.map fun e => (e.1, e.2.map Filter.height)) =
        some [("a", none), ("b", some 3)] := by decide +kernel
  obtain ⟨f, hf, hfacts⟩ := Option.map_eq_some_iff.mp hfilter
  obtain ⟨p, hp, helements⟩ := Option.map_eq_some_iff.mp hpath
  rw [Text.toOption_eq_some_iff] at hf hp
  obtain ⟨hheight, henclosing⟩ := Prod.mk.inj hfacts
  obtain ⟨⟨name, narrowing⟩, hmem, hentry⟩ : ∃ e ∈ p.elements,
      (e.1, e.2.map Filter.height) = ("b", some 3) :=
    List.mem_map.mp (helements ▸ by simp)
  obtain ⟨rfl, hnarrowing⟩ := Prod.mk.inj hentry
  obtain ⟨g, rfl, hg⟩ := Option.map_eq_some_iff.mp hnarrowing
  exact ⟨f, p, g, hf, (height_of_parse _ _).1 f hf, hheight, henclosing, hp, hmem,
    (height_of_parse _ _).2 p hp _ hmem g rfl, hg⟩

end ScimQuery
