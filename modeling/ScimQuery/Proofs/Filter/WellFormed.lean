import ScimQuery.Parse
import ScimQuery.Proofs.Filter.Folds
import ScimQuery.Proofs.Filter.Phrases
import ScimQuery.Proofs.Filter.Tokens
import ScimQuery.Proofs.Path.Words

/-!
# Filter — well-formed filters

What reading gives is well-formed (`Filter.WellFormed`): every `and` and `or` has two operands
at least, every path is well-formed, and no condition starts with the word `not`.

The invariant is that everything on the stacks is well-formed, in the filter that is being read
and in those around it (`Reading.WellFormed`).  A phrase brings in nothing else
(`Phrase.read_wellFormed`), one step keeps it (`Reading.step_wellFormed`), and so does a whole
run (`Reading.run_wellFormed`).
-/

namespace ScimQuery

open Text (Cursor isWordChar isWordChar_eq_false isKeyword bind_eq_ok_iff)

/-- A filter that reading can give, at every level. -/
inductive Filter.WellFormed : Filter → Prop where
  | compare {op : Operator} {p : Path} {v : Value} :
      p.WellFormed → isKeyword p.chars "not" = false → WellFormed (.compare op p v)
  | present {p : Path} :
      p.WellFormed → isKeyword p.chars "not" = false → WellFormed (.present p)
  | and {fs : List Filter} : 2 ≤ fs.length → (∀ f ∈ fs, WellFormed f) → WellFormed (.and fs)
  | or {fs : List Filter} : 2 ≤ fs.length → (∀ f ∈ fs, WellFormed f) → WellFormed (.or fs)
  | not {f : Filter} : WellFormed f → WellFormed (.not f)
  | complex {p : Path} {f : Filter} : p.WellFormed → WellFormed f → WellFormed (.complex p f)

mutual

/-- Is the filter well-formed? -/
def Filter.decideWellFormed : (f : Filter) → Decidable f.WellFormed
  | .compare _ p _ =>
      decidable_of_iff (p.WellFormed ∧ isKeyword p.chars "not" = false)
        ⟨fun ⟨hp, hnot⟩ => .compare hp hnot, fun | .compare hp hnot => ⟨hp, hnot⟩⟩
  | .present p =>
      decidable_of_iff (p.WellFormed ∧ isKeyword p.chars "not" = false)
        ⟨fun ⟨hp, hnot⟩ => .present hp hnot, fun | .present hp hnot => ⟨hp, hnot⟩⟩
  | .and fs =>
      have := Filter.decideAllWellFormed fs
      decidable_of_iff (2 ≤ fs.length ∧ ∀ f ∈ fs, f.WellFormed)
        ⟨fun ⟨hlen, hfs⟩ => .and hlen hfs, fun | .and hlen hfs => ⟨hlen, hfs⟩⟩
  | .or fs =>
      have := Filter.decideAllWellFormed fs
      decidable_of_iff (2 ≤ fs.length ∧ ∀ f ∈ fs, f.WellFormed)
        ⟨fun ⟨hlen, hfs⟩ => .or hlen hfs, fun | .or hlen hfs => ⟨hlen, hfs⟩⟩
  | .not f =>
      have := f.decideWellFormed
      decidable_of_iff f.WellFormed ⟨.not, fun | .not hf => hf⟩
  | .complex p f =>
      have := f.decideWellFormed
      decidable_of_iff (p.WellFormed ∧ f.WellFormed)
        ⟨fun ⟨hp, hf⟩ => .complex hp hf, fun | .complex hp hf => ⟨hp, hf⟩⟩

/-- Are all the filters well-formed? -/
def Filter.decideAllWellFormed : (fs : List Filter) → Decidable (∀ f ∈ fs, f.WellFormed)
  | [] => .isTrue (by simp)
  | f :: fs =>
      have := f.decideWellFormed
      have := Filter.decideAllWellFormed fs
      decidable_of_iff (f.WellFormed ∧ ∀ g ∈ fs, g.WellFormed) List.forall_mem_cons.symm

end

instance (f : Filter) : Decidable f.WellFormed := f.decideWellFormed

theorem Filter.WellFormed.join {fs : List Filter} (hlen : 2 ≤ fs.length)
    (hfs : ∀ f ∈ fs, f.WellFormed) (j : Junction) : (Filter.join j fs).WellFormed := by
  cases j with
  | and => exact .and hlen hfs
  | or => exact .or hlen hfs

/-! ### Phrases -/

namespace Phrase

/-- What a phrase brings in is well-formed. -/
def WellFormed : Phrase → Prop
  | .operand f => f.WellFormed
  | .openValue path _ => path.WellFormed
  | _ => True

theorem readPath_sound {word : List Char} {position : Nat} {p : Path} (hne : word ≠ [])
    (hword : ∀ c ∈ word, isWordChar c = true) (h : readPath word position = .ok p) :
    p.WellFormed ∧ p.chars = word := by
  unfold readPath at h
  split at h
  · cases h
  · rename_i hpath
    cases h
    refine Path.ofWord_sound hne ?_ hpath
    intro hbracket
    have := hword '[' hbracket
    rw [isWordChar_eq_false (by simp)] at this
    cases this

theorem readCondition_wellFormed {region : Region} {word : List Char} {position : Nat}
    {c after : Cursor} {f : Filter} (hne : word ≠ []) (hword : ∀ c ∈ word, isWordChar c = true)
    (hnot : isKeyword word "not" = false)
    (h : readCondition region word position c = .ok (f, after)) : f.WellFormed := by
  cases readCondition_eq_ok_iff.mp h with
  | present hpath =>
      obtain ⟨hp, rfl⟩ := readPath_sound hne hword hpath
      exact .present hp hnot
  | compare hpath =>
      obtain ⟨hp, rfl⟩ := readPath_sound hne hword hpath
      exact .compare hp hnot

/-- A phrase brings in nothing that is not well-formed. -/
theorem read_wellFormed {region : Region} {operandDue : Bool} {c after : Cursor} {phrase : Phrase}
    (h : read region operandDue c = .ok (some (phrase, after))) : phrase.WellFormed := by
  cases read_eq_some_iff.mp h with
  | operand htoken hnot hcondition =>
      obtain ⟨hne, hword⟩ := Token.read_spelled htoken
      exact readCondition_wellFormed hne hword hnot hcondition
  | openValue htoken hne hpath =>
      exact (readPath_sound hne (Token.read_spelled htoken) hpath).1
  | _ => trivial

end Phrase

/-! ### Folding -/

namespace Level

theorem foldRun_wellFormed {j : Junction} {members operands operands' : List Filter}
    (hmembers : ∀ f ∈ members, f.WellFormed) (hoperands : ∀ f ∈ operands, f.WellFormed)
    (h : foldRun j members operands = .ok operands') : ∀ f ∈ operands', f.WellFormed := by
  obtain ⟨⟨first, rest⟩, hpop, h⟩ := bind_eq_ok_iff.mp h
  obtain ⟨joined, hjoin, h⟩ := bind_eq_ok_iff.mp h
  cases h
  obtain rfl := pop_eq_ok_iff.mp hpop
  rw [List.forall_mem_cons] at hoperands ⊢
  refine ⟨?_, hoperands.2⟩
  unfold Filter.joinAll at hjoin
  split at hjoin
  · cases hjoin
  · rename_i hlen
    cases hjoin
    -- a run is ended by one operand more than it has members
    exact .join (by omega) (List.forall_mem_cons.mpr ⟨hoperands.1, hmembers⟩) j

theorem foldAnds_wellFormed {marks marks' : List Mark} {members operands operands' : List Filter}
    (hmembers : ∀ f ∈ members, f.WellFormed) (hoperands : ∀ f ∈ operands, f.WellFormed)
    (h : foldAnds members marks operands = .ok (marks', operands')) :
    ∀ f ∈ operands', f.WellFormed := by
  fun_induction foldAnds members marks operands with
  | case1 members marks operands ih =>
      obtain ⟨⟨f, rest⟩, hpop, h⟩ := bind_eq_ok_iff.mp h
      obtain rfl := pop_eq_ok_iff.mp hpop
      rw [List.forall_mem_cons] at hoperands
      exact ih f rest (List.forall_mem_cons.mpr ⟨hoperands.1, hmembers⟩) hoperands.2 h
  | case2 =>
      cases h
      exact hoperands
  | case3 =>
      obtain ⟨folded, hfold, h⟩ := bind_eq_ok_iff.mp h
      cases h
      exact foldRun_wellFormed hmembers hoperands hfold

theorem endRun_wellFormed {run : Run} {operands operands' : List Filter}
    (hrun : ∀ r ∈ run, ∀ f ∈ r.2, f.WellFormed) (hoperands : ∀ f ∈ operands, f.WellFormed)
    (h : endRun run operands = .ok operands') : ∀ f ∈ operands', f.WellFormed := by
  cases run with
  | none =>
      cases h
      exact hoperands
  | some r => exact foldRun_wellFormed (hrun r rfl) hoperands h

theorem foldRuns_wellFormed {run : Run} {marks marks' : List Mark}
    {operands operands' : List Filter} {group : Option Bool}
    (hrun : ∀ r ∈ run, ∀ f ∈ r.2, f.WellFormed) (hoperands : ∀ f ∈ operands, f.WellFormed)
    (h : foldRuns run marks operands = .ok (group, marks', operands')) :
    ∀ f ∈ operands', f.WellFormed := by
  fun_induction foldRuns run marks operands with
  | case1 =>
      obtain ⟨ended, hend, h⟩ := bind_eq_ok_iff.mp h
      cases h
      exact endRun_wellFormed hrun hoperands hend
  | case2 =>
      obtain ⟨ended, hend, h⟩ := bind_eq_ok_iff.mp h
      cases h
      exact endRun_wellFormed hrun hoperands hend
  | case3 operands marks j members ih =>
      -- one more member of the run
      obtain ⟨⟨f, rest⟩, hpop, h⟩ := bind_eq_ok_iff.mp h
      obtain rfl := pop_eq_ok_iff.mp hpop
      rw [List.forall_mem_cons] at hoperands
      refine ih f rest ?_ hoperands.2 h
      rintro r ⟨⟩
      exact List.forall_mem_cons.mpr ⟨hoperands.1, hrun _ rfl⟩
  | case4 operands marks j k members hne ih =>
      -- the joined run is the first member of the next one
      obtain ⟨folded, hfold, h⟩ := bind_eq_ok_iff.mp h
      obtain ⟨⟨f, rest⟩, hpop, h⟩ := bind_eq_ok_iff.mp h
      obtain rfl := pop_eq_ok_iff.mp hpop
      have hfolded := foldRun_wellFormed (hrun _ rfl) hoperands hfold
      rw [List.forall_mem_cons] at hfolded
      refine ih f rest ?_ hfolded.2 h
      rintro r ⟨⟩
      simpa using hfolded.1
  | case5 operands marks j ih =>
      obtain ⟨⟨f, rest⟩, hpop, h⟩ := bind_eq_ok_iff.mp h
      obtain rfl := pop_eq_ok_iff.mp hpop
      rw [List.forall_mem_cons] at hoperands
      refine ih f rest ?_ hoperands.2 h
      rintro r ⟨⟩
      simpa using hoperands.1

/-! ### One level -/

/-- Every operand of the level is well-formed. -/
def WellFormed (l : Level) : Prop :=
  ∀ f ∈ l.operands, f.WellFormed

variable {l l' : Level}

theorem WellFormed.push (hl : l.WellFormed) {f : Filter} (hf : f.WellFormed) :
    (l.push f).WellFormed :=
  List.forall_mem_cons.mpr ⟨hf, hl⟩

theorem WellFormed.openGroup {limits : Limits} {negated : Bool} (hl : l.WellFormed)
    (h : l.openGroup limits negated = .ok l') : l'.WellFormed := by
  unfold Level.openGroup at h
  split at h
  · cases h
  · cases h
    exact hl

theorem WellFormed.closeGroup {position : Nat} (hl : l.WellFormed)
    (h : l.closeGroup position = .ok l') : l'.WellFormed := by
  obtain ⟨negated, marks, operands, operands', hfold, hkept, rfl⟩ := closeGroup_cases h
  have hoperands := foldRuns_wellFormed (by simp) hl hfold
  rcases hkept with rfl | ⟨f, rest, rfl, rfl⟩
  · exact hoperands
  · rw [List.forall_mem_cons] at hoperands
    exact List.forall_mem_cons.mpr ⟨.not hoperands.1, hoperands.2⟩

theorem WellFormed.join {j : Junction} (hl : l.WellFormed) (h : l.join j = .ok l') :
    l'.WellFormed := by
  cases j with
  | and =>
      cases h
      exact hl
  | or =>
      obtain ⟨⟨marks, operands⟩, hfold, h⟩ := bind_eq_ok_iff.mp h
      cases h
      exact foldAnds_wellFormed (by simp) hl hfold

theorem WellFormed.finish {f : Filter} (hl : l.WellFormed) (h : l.finish = .ok f) :
    f.WellFormed := by
  obtain ⟨js, rest, -, -, hfold⟩ := finish_cases h
  exact foldRuns_wellFormed (by simp) hl hfold f List.mem_cons_self

end Level

/-! ### The filter and those around it -/

/-- Everything on the stacks is well-formed, in the filter that is read and in those around it,
and so are the paths that these narrow. -/
structure Reading.WellFormed (r : Reading) : Prop where
  level : r.level.WellFormed
  outer : ∀ e ∈ r.outer, e.1.WellFormed ∧ e.2.WellFormed

/-- What a phrase leads to is well-formed. -/
def Progress.WellFormed : Progress → Prop
  | .more r => r.WellFormed
  | .done f => f.WellFormed

namespace Reading

variable {limits : Limits} {r : Reading}

theorem WellFormed.openValue {r' : Reading} {path : Path} {position : Nat} (hr : r.WellFormed)
    (hpath : path.WellFormed) (h : r.openValue limits path position = .ok r') : r'.WellFormed := by
  unfold Reading.openValue at h
  split at h
  · cases h
  · cases h
    constructor
    case level =>
      intro f hf
      exact absurd hf (by simp)
    case outer =>
      intro e he
      rcases List.mem_cons.mp he with rfl | he
      · exact ⟨hpath, hr.level⟩
      · exact hr.outer e he

theorem WellFormed.closeValue {progress : Progress} (hr : r.WellFormed)
    (h : r.closeValue = .ok progress) : progress.WellFormed := by
  obtain ⟨f, hfinish, h⟩ := bind_eq_ok_iff.mp h
  have hf := hr.level.finish hfinish
  split at h
  · cases h
    exact hf
  · rename_i path level outer houter
    cases h
    have hall := hr.outer
    rw [houter, List.forall_mem_cons] at hall
    exact ⟨hall.1.2.push (.complex hall.1.1 hf), hall.2⟩

/-- One step keeps everything well-formed. -/
theorem step_wellFormed {phrase : Phrase} {progress : Progress} (hr : r.WellFormed)
    (hphrase : phrase.WellFormed) (h : r.step limits phrase = .ok progress) :
    progress.WellFormed := by
  cases phrase with
  | operand f =>
      cases h
      exact ⟨hr.level.push hphrase, hr.outer⟩
  | openGroup negated =>
      obtain ⟨l, hopen, h⟩ := bind_eq_ok_iff.mp h
      cases h
      exact ⟨hr.level.openGroup hopen, hr.outer⟩
  | closeGroup position =>
      obtain ⟨l, hclose, h⟩ := bind_eq_ok_iff.mp h
      cases h
      exact ⟨hr.level.closeGroup hclose, hr.outer⟩
  | join j =>
      obtain ⟨l, hjoin, h⟩ := bind_eq_ok_iff.mp h
      cases h
      exact ⟨hr.level.join hjoin, hr.outer⟩
  | openValue path position =>
      obtain ⟨r', hopen, h⟩ := bind_eq_ok_iff.mp h
      cases h
      exact hr.openValue hphrase hopen
  | closeValue => exact hr.closeValue h

theorem WellFormed.finish {f : Filter} (hr : r.WellFormed) (h : r.finish = .ok f) :
    f.WellFormed := by
  unfold Reading.finish at h
  split at h
  · cases h
  · exact hr.level.finish h

/-- A run that starts from well-formed stacks gives a well-formed filter. -/
theorem run_wellFormed {c after : Cursor} {f : Filter} (hr : r.WellFormed)
    (h : r.run limits c = .ok (f, after)) : f.WellFormed := by
  fun_induction run limits r c with
  | case1 => cases h
  | case2 => cases h
  | case3 r c hread f' hfinish =>
      cases h
      exact hr.finish hfinish
  | case4 => cases h
  | case5 r c phrase next hread _ f' hstep =>
      cases h
      exact step_wellFormed hr (Phrase.read_wellFormed hread) hstep
  | case6 r c phrase next hread _ r' hstep ih =>
      exact ih (step_wellFormed hr (Phrase.read_wellFormed hread) hstep) h

end Reading

/-! ### Whole texts -/

theorem Filter.read_wellFormed {limits : Limits} {c after : Cursor} {f : Filter}
    (h : Filter.read limits c = .ok (f, after)) : f.WellFormed :=
  Reading.run_wellFormed ⟨fun _ h => absurd h (by simp), fun _ h => absurd h (by simp)⟩ h

/-- A filter that a text spells was read from a place of it. -/
theorem exists_read_of_parseFilter {limits : Limits} {text : String} {f : Filter}
    (h : parseFilter limits text = .ok f) :
    ∃ c after, Filter.read limits c = .ok (f, after) := by
  obtain ⟨c, -, h⟩ := bind_eq_ok_iff.mp h
  obtain ⟨⟨g, after⟩, hread, h⟩ := bind_eq_ok_iff.mp h
  cases h
  exact ⟨c, after, hread⟩

/-- **Every filter that is read is well-formed**, whatever the text and the limits. -/
theorem parseFilter_wellFormed (limits : Limits) (text : String) (f : Filter)
    (h : parseFilter limits text = .ok f) : f.WellFormed := by
  obtain ⟨c, -, h⟩ := bind_eq_ok_iff.mp h
  obtain ⟨⟨g, after⟩, hread, h⟩ := bind_eq_ok_iff.mp h
  cases h
  exact Filter.read_wellFormed hread

/-- A filter with every kind of node, read from a text that is not its canonical one. -/
theorem parseFilter_wellFormed_nested : ∃ f,
    parseFilter { maxDepth := 3 }
        "name.first co \"x\" or NOT (urn:a:b[c eq 1 and d pr])" = .ok f ∧
      f.text = "(name.first co \"x\" or not(urn:a:b[(c eq 1 and d pr)]))" ∧ f.WellFormed := by
  have hread : (parseFilter { maxDepth := 3 }
      "name.first co \"x\" or NOT (urn:a:b[c eq 1 and d pr])").toOption.map Filter.text =
        some "(name.first co \"x\" or not(urn:a:b[(c eq 1 and d pr)]))" := by decide +kernel
  obtain ⟨f, hf, htext⟩ := Option.map_eq_some_iff.mp hread
  rw [Text.toOption_eq_some_iff] at hf
  exact ⟨f, hf, htext, parseFilter_wellFormed _ _ f hf⟩

end ScimQuery
