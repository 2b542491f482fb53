import Mathlib.Data.List.TakeWhile
import ScimQuery.Parse
import ScimQuery.Proofs.Number.Text
import ScimQuery.Proofs.Path.Readable

/-!
# Path — texts without bracket

A text without bracket spells a path just if, but for the blanks around it, it is empty or names
with dots between them (`Path.Dotted`): no name is empty, and a colon ends none of them but the
last.  The path is written as it was read, and its schema is what the first name has in front of
its last colon, if this name starts with `urn:` (`parsePath_dotted`).

The names are read from the left.  What is left of such a text behind a dot is again such a text
(`dotted_cons`), and where something else than a dot stops a name, this name is none
(`Dotted.first`), so that the induction goes from dot to dot (`exists_readFrom_iff`).
-/

namespace ScimQuery

open Text (isNameChar isBlank)

/-- The text without the blanks around it. -/
def Text.strip (cs : List Char) : List Char :=
  (trimEnd cs).dropWhile isBlank

theorem Text.mem_of_mem_strip {cs : List Char} {c : Char} (h : c ∈ strip cs) : c ∈ cs :=
  mem_of_mem_dropEnd ((List.dropWhile_sublist isBlank).subset h)

namespace Path

/-- Names with dots between them. -/
structure Dotted (cs : List Char) : Prop where
  /-- No name is empty, and each is made of name characters. -/
  names : ∀ w ∈ cs.splitOn '.', w ≠ [] ∧ ∀ c ∈ w, isNameChar c = true
  /-- A colon ends no name but the last. -/
  inner : ∀ w ∈ (cs.splitOn '.').dropLast, w.getLast? ≠ some ':'

instance (cs : List Char) : Decidable (Dotted cs) :=
  decidable_of_iff
    ((∀ w ∈ cs.splitOn '.', w ≠ [] ∧ w.all isNameChar = true) ∧
      ∀ w ∈ (cs.splitOn '.').dropLast, w.getLast? ≠ some ':')
    ⟨fun ⟨hnames, hinner⟩ => ⟨by simpa using hnames, hinner⟩,
      fun h => ⟨by simpa using h.names, h.inner⟩⟩

variable {within : Within} {acc : Option Path} {w s cs : List Char} {d : Char} {p : Path}

theorem dot_not_mem (hw : ∀ c ∈ w, isNameChar c = true) : '.' ∉ w := by
  intro hdot
  have := hw '.' hdot
  rw [Text.isNameChar_dot] at this
  cases this

theorem ne_dot_of_name (hw : ∀ c ∈ w, isNameChar c = true) : ∀ c ∈ w, (c != '.') = true := by
  rintro c hc
  rw [bne_iff_ne]
  rintro rfl
  exact dot_not_mem hw hc

/-! ### The names of a text -/

/-- The first name is what stands in front of the first dot. -/
theorem exists_splitOn (cs : List Char) :
    ∃ more, cs.splitOn '.' = cs.takeWhile (· != '.') :: more := by
  obtain ⟨w, s, rfl, hw, hs⟩ := Text.exists_run (· != '.') cs
  have hdot : '.' ∉ w := fun h => by simpa using hw '.' h
  rw [Text.takeWhile_run hw hs]
  cases s with
  | nil => exact ⟨[], by rw [List.append_nil, List.splitOn_eq_singleton hdot]⟩
  | cons d s =>
      obtain rfl : d = '.' := by simpa using hs d rfl
      exact ⟨s.splitOn '.', List.splitOn_append_cons_self_of_not_mem hdot s⟩

theorem Dotted.first (h : Dotted cs) : ∀ c ∈ cs.takeWhile (· != '.'), isNameChar c = true := by
  obtain ⟨more, hsplit⟩ := exists_splitOn cs
  exact (h.names _ (by simp [hsplit])).2

/-- Another character than a dot ends no name. -/
theorem not_dotted_stray (hw : ∀ c ∈ w, isNameChar c = true) (hd : isNameChar d = false)
    (hdot : d ≠ '.') : ¬ Dotted (w ++ d :: s) := by
  intro h
  have hfirst : d ∈ (w ++ d :: s).takeWhile (· != '.') := by
    rw [List.takeWhile_append_of_pos (ne_dot_of_name hw)]
    simp [hdot]
  have := h.first d hfirst
  rw [hd] at this
  cases this

theorem not_dotted_nil : ¬ Dotted [] := by
  intro h
  exact (h.names [] (by simp)).1 rfl

theorem dotted_name (hw : ∀ c ∈ w, isNameChar c = true) (hne : w ≠ []) : Dotted w := by
  have hsplit : w.splitOn '.' = [w] := List.splitOn_eq_singleton (dot_not_mem hw)
  exact ⟨by simpa [hsplit] using ⟨hne, hw⟩, by simp [hsplit]⟩

/-- Behind a name and a dot there are names with dots between them. -/
theorem dotted_cons (hw : ∀ c ∈ w, isNameChar c = true) :
    Dotted (w ++ '.' :: s) ↔ w ≠ [] ∧ w.getLast? ≠ some ':' ∧ Dotted s := by
  have hsplit : (w ++ '.' :: s).splitOn '.' = w :: s.splitOn '.' :=
    List.splitOn_append_cons_self_of_not_mem (dot_not_mem hw) s
  have hdrop : ((w ++ '.' :: s).splitOn '.').dropLast = w :: (s.splitOn '.').dropLast := by
    rw [hsplit, List.dropLast_cons_of_ne_nil (List.splitOn_ne_nil '.' s)]
  constructor
  · rintro ⟨hnames, hinner⟩
    rw [hsplit, List.forall_mem_cons] at hnames
    rw [hdrop, List.forall_mem_cons] at hinner
    exact ⟨hnames.1.1, hinner.1, hnames.2, hinner.2⟩
  · rintro ⟨hne, hcolon, hs⟩
    refine ⟨?_, ?_⟩
    · rw [hsplit, List.forall_mem_cons]
      exact ⟨⟨hne, hw⟩, hs.names⟩
    · rw [hdrop, List.forall_mem_cons]
      exact ⟨hcolon, hs.inner⟩

/-! ### Reading the names -/

/-- A piece without a name is a schema by itself. -/
theorem attach_nameless (hne : w ≠ []) (h : (attach acc w).2 = []) :
    acc = none ∧ ∃ urn, splitSchema w = (some urn, []) := by
  cases acc with
  | some p => exact absurd h hne
  | none =>
      obtain ⟨urn, name, hsplit⟩ : ∃ urn name, splitSchema w = (urn, name) := ⟨_, _, rfl⟩
      obtain rfl : name = [] := by simpa [attach, hsplit] using h
      cases urn with
      | none => exact absurd (splitSchema_eq_none hsplit).1.symm hne
      | some urn => exact ⟨rfl, urn, hsplit⟩

/-- A name at the end of the text is read. -/
theorem exists_readFrom_last (within : Within) (acc : Option Path) (k : Nat)
    (hw : ∀ c ∈ w, isNameChar c = true) (hne : w ≠ []) :
    ∃ found, readFrom within acc false ⟨k, w⟩ = .ok found := by
  by_cases hname : (attach acc w).2 = []
  · obtain ⟨rfl, urn, hsplit⟩ := attach_nameless hne hname
    have hpiece := Piece.read_end (k := k) hw
    rw [if_neg (by simpa using hne)] at hpiece
    exact ⟨_, readFrom_schema hpiece hne hsplit⟩
  · exact ⟨_, readFrom_last hw hne hname⟩

/-- Nothing is read of a text where no name stands in front of a dot. -/
theorem readFrom_nameless_dot (within : Within) (acc : Option Path) (k : Nat) (hs : s ≠ []) :
    readFrom within acc false ⟨k, '.' :: s⟩ = .error (.attributeNameExpected k) := by
  have hpiece := Piece.read_cons (w := []) (k := k) (s := s) (by simp) Text.isNameChar_dot
  rw [if_neg (by decide), if_pos (by simp), if_neg (by simpa using hs), List.nil_append] at hpiece
  rw [readFrom_some hpiece]
  simp

/-- A name that a dot ends is read just if a colon does not end it and what is left is read. -/
theorem exists_readFrom_dot_iff (within : Within) (acc : Option Path) (k : Nat)
    (hw : ∀ c ∈ w, isNameChar c = true) :
    (∃ found, readFrom within acc false ⟨k, w ++ '.' :: s⟩ = .ok found) ↔
      w ≠ [] ∧ w.getLast? ≠ some ':' ∧ s ≠ [] ∧
        ∃ found, readFrom within
          (some ((attach acc w).1.sub (String.ofList (attach acc w).2))) false
            ⟨k + w.length + 1, s⟩ = .ok found := by
  by_cases hgoes : w.getLast? ≠ some ':' ∧ s ≠ []
  · obtain ⟨hcolon, hs⟩ := hgoes
    by_cases hne : w = []
    · subst hne
      simp [readFrom_nameless_dot within acc k hs]
    · have hname : (attach acc w).2 ≠ [] := by
        intro hname
        obtain ⟨-, urn, hsplit⟩ := attach_nameless hne hname
        exact hcolon (by simp [(splitSchema_eq_some hsplit).1])
      rw [readFrom_dot hw hne hcolon hs hname]
      simp [hne, hcolon, hs]
  · obtain ⟨e, he⟩ := readFrom_stray (s := s) within acc k hw Text.isNameChar_dot (by decide)
      (by simpa using hgoes)
    constructor
    · rintro ⟨found, hfound⟩
      rw [he] at hfound
      cases hfound
    · rintro ⟨-, hcolon, hs, -⟩
      exact absurd ⟨hcolon, hs⟩ hgoes

/-- **A text without bracket is read just if it is names with dots between them.** -/
theorem exists_readFrom_iff (within : Within) : ∀ (acc : Option Path) (k : Nat) (cs : List Char),
    cs ≠ [] → '[' ∉ cs →
      ((∃ found, readFrom within acc false ⟨k, cs⟩ = .ok found) ↔ Dotted cs)
  | acc, k, cs, hcs, hbracket => by
      obtain ⟨w, s, rfl, hw, hs⟩ := Text.exists_run isNameChar cs
      cases s with
      | nil =>
          rw [List.append_nil] at hcs ⊢
          exact iff_of_true (exists_readFrom_last within acc k hw hcs) (dotted_name hw hcs)
      | cons d s =>
          have hopen : d ≠ '[' ∧ '[' ∉ s := by
            simp only [List.mem_append, List.mem_cons, not_or] at hbracket
            exact ⟨fun h => hbracket.2.1 h.symm, hbracket.2.2⟩
          by_cases hdot : d = '.'
          · subst hdot
            rw [exists_readFrom_dot_iff within acc k hw, dotted_cons hw]
            by_cases hs : s = []
            · simp [hs, not_dotted_nil]
            · rw [exists_readFrom_iff within _ _ s hs hopen.2]
              simp [hs]
          · obtain ⟨e, he⟩ := readFrom_stray (s := s) within acc k hw (hs d rfl) hopen.1
              (fun h => hdot h.1)
            simp [he, not_dotted_stray hw (hs d rfl) hdot]
termination_by _ _ cs => cs.length

/-! ### The schema of the first name -/

theorem hasSchema_iff_isPrefix {name : List Char} :
    hasSchema name = true ↔ "urn:".toList <+: Text.lower name := by
  have hlower : Text.lower "urn:".toList = "urn:".toList := by decide
  rw [List.prefix_iff_eq_take, hasSchema, Text.isKeyword, Text.sameLetters, beq_iff_eq, hlower,
    eq_comm, Text.lower, List.map_take]
  rfl

/-- Up to its first dot, the text of a well-formed path is its schema and its first name. -/
theorem WellFormed.takeWhile_chars : ∀ {p : Path}, p.WellFormed →
    p.chars.takeWhile (· != '.') =
      (root p.urn).stem ++ ((p.elements.head?.map Prod.fst).getD "").toList
  | .root none, h => (wellFormed_root.mp h).elim
  | .root (some urn), h => by
      obtain ⟨hurn, -, -⟩ := wellFormed_root.mp h
      have hchars : ∀ c ∈ urn.toList ++ [':'], (c != '.') = true :=
        ne_dot_of_name (List.forall_mem_append.mpr ⟨hurn, by simpa using isNameChar_colon⟩)
      change (urn.toList ++ [':']).takeWhile (· != '.') = (urn.toList ++ [':']) ++ []
      rw [List.append_nil, List.takeWhile_eq_self_iff.mpr hchars]
  | .sub (.root urn) name, h => by
      obtain ⟨hname, hschema⟩ := wellFormed_sub_root.mp h
      have hchars := ne_dot_of_name (attach_root hname hschema).2
      rw [chars_sub, List.takeWhile_eq_self_iff.mpr hchars]
      simp [Path.urn]
  | .sub (.sub p name) name', h => by
      obtain ⟨hp, -, -⟩ := wellFormed_sub_sub.mp h
      have hchars : ((p.sub name).sub name').chars = (p.sub name).chars ++ '.' :: name'.toList := by
        rw [chars_sub, stem_sub, chars_sub]
        simp
      have hhead : ((p.sub name).sub name').elements.head? = (p.sub name).elements.head? := by
        cases hp : p.elements <;> simp [hp]
      rw [hchars, Text.takeWhile_append_tail _ (by simp), hp.takeWhile_chars, hhead]
      rfl
  | .sub (.subWhere _ _ _) _, h => absurd h not_wellFormed_sub_subWhere
  | .subWhere _ _ _, h => absurd h not_wellFormed_subWhere

/-- **The schema of a well-formed path** is there just if the first name of its text starts with
`urn:`, and is what this name has in front of its last colon. -/
theorem WellFormed.urn_first (h : p.WellFormed) :
    (p.urn.isSome ↔ "urn:".toList <+: Text.lower (p.chars.takeWhile (· != '.'))) ∧
      ∀ urn ∈ p.urn, ∃ name,
        p.chars.takeWhile (· != '.') = urn.toList ++ ':' :: name ∧ ':' ∉ name := by
  have hschema := h.schema
  rw [h.takeWhile_chars, ← hasSchema_iff_isPrefix]
  generalize p.elements.head?.map Prod.fst = first at hschema ⊢
  cases hurn : p.urn with
  | none =>
      rw [hurn] at hschema
      cases first with
      | none => exact hschema.elim
      | some name =>
        have hname : hasSchema name.toList = false := hschema
        simp [stem_root_none, hname]
  | some urn =>
      rw [hurn] at hschema
      obtain ⟨-, hstart, hcolon⟩ := hschema
      have hname : ':' ∉ (first.getD "").toList := by
        cases first with
        | none => simp
        | some name => exact hcolon name rfl
      have hwhole : (root (some urn)).stem ++ (first.getD "").toList =
          urn.toList ++ ':' :: (first.getD "").toList := by
        rw [stem_root_some, List.append_assoc, List.singleton_append]
      rw [hwhole, hasSchema_append_colon hname]
      refine ⟨by simp [hstart], ?_⟩
      rintro _ ⟨⟩
      exact ⟨_, rfl, hname⟩

/-! ### Whole texts -/

/-- Reading a whole text without limit on its length. -/
theorem parsePath_eq (d : Nat) (text : String) :
    ∃ k, parsePath { maxDepth := d } text = Prod.fst <$>
      readFrom (Filter.readWithin { maxDepth := d }) none false ⟨k, Text.strip text.toList⟩ := by
  refine ⟨0 + ((Text.trimEnd text.toList).takeWhile isBlank).length, ?_⟩
  rw [map_eq_pure_bind]
  rfl

end Path

/-- **A text without bracket spells a path** just if, without the blanks around it, it is empty or
names with dots between them.  The path is written as it was read, and its schema is what the
first name has in front of its last colon, if this name starts with `urn:`. -/
theorem parsePath_dotted (d : Nat) (text : String) (hbracket : '[' ∉ text.toList) :
    ((∃ p, parsePath { maxDepth := d } text = .ok p) ↔
        Text.strip text.toList = [] ∨ Path.Dotted (Text.strip text.toList)) ∧
      ∀ p, parsePath { maxDepth := d } text = .ok p →
        p.text.toList = Text.strip text.toList ∧
        ∃ first more, (Text.strip text.toList).splitOn '.' = first :: more ∧
          (p.urn.isSome ↔ "urn:".toList <+: Text.lower first) ∧
          ∀ urn ∈ p.urn, ∃ name, first = urn.toList ++ ':' :: name ∧ ':' ∉ name := by
  obtain ⟨k, hparse⟩ := Path.parsePath_eq d text
  have hstripped : '[' ∉ Text.strip text.toList := fun h => hbracket (Text.mem_of_mem_strip h)
  rw [hparse]
  generalize Text.strip text.toList = cs at hstripped ⊢
  obtain ⟨more, hsplit⟩ := Path.exists_splitOn cs
  by_cases hcs : cs = []
  · subst hcs
    have hread : Path.readFrom (Filter.readWithin { maxDepth := d }) none false ⟨k, []⟩ =
        .ok (.resource, ⟨k, []⟩) := Path.readFrom_of_none rfl
    rw [hread]
    refine ⟨by simp [Functor.map, Except.map], ?_⟩
    rintro p ⟨⟩
    have hurn : Path.resource.urn = none := rfl
    exact ⟨rfl, [], more, hsplit, iff_of_false (by simp [hurn]) (by decide), by simp [hurn]⟩
  · constructor
    · rw [← Path.exists_readFrom_iff (Filter.readWithin { maxDepth := d }) none k cs hcs hstripped]
      simp [hcs, Text.map_eq_ok_iff]
    · intro p hp
      obtain ⟨⟨q, after⟩, hread, rfl⟩ := Text.map_eq_ok_iff.mp hp
      have hstart : Path.Started none := trivial
      obtain ⟨hwf, hchars⟩ := Path.readFrom_sound hstart hstripped hcs hread
      obtain rfl : q.chars = cs := hchars
      exact ⟨by rw [Path.text, String.toList_ofList], _, more, hsplit, hwf.urn_first⟩

/-- Blanks around the text, a schema in capitals, and a colon at the end of the last name. -/
theorem parsePath_dotted_blanks :
    '[' ∉ "\u3000 URN:a:b.né-2.x: \t".toList ∧
      ∃ p, parsePath {} "\u3000 URN:a:b.né-2.x: \t" = .ok p ∧
        p.text.toList = "URN:a:b.né-2.x:".toList ∧ p.urn = some "URN:a" := by
  have hbracket : '[' ∉ "\u3000 URN:a:b.né-2.x: \t".toList := by decide
  have hstrip : Text.strip "\u3000 URN:a:b.né-2.x: \t".toList = "URN:a:b.né-2.x:".toList := by
    decide +kernel
  obtain ⟨hread, hfound⟩ := parsePath_dotted 64 "\u3000 URN:a:b.né-2.x: \t" hbracket
  rw [hstrip] at hread hfound
  obtain ⟨p, hp⟩ := hread.mpr (.inr (by decide +kernel))
  obtain ⟨htext, first, more, hsplit, hsome, hlast⟩ := hfound p hp
  have hnames : "URN:a:b.né-2.x:".toList.splitOn '.' =
      ["URN:a:b".toList, "né-2".toList, "x:".toList] := by decide
  obtain rfl : "URN:a:b".toList = first := (List.cons.inj (hnames.symm.trans hsplit)).1
  obtain ⟨urn, hurn⟩ := Option.isSome_iff_exists.mp (hsome.mpr (by decide))
  obtain ⟨name, hname, hcolon⟩ := hlast urn hurn
  have hcut : Path.splitLastColon? "URN:a:b".toList = some (urn.toList, name) :=
    hname ▸ Path.splitLastColon?_append urn.toList hcolon
  have hurn' : "URN:a".toList = urn.toList := congrArg Prod.fst (Option.some.inj hcut)
  exact ⟨hbracket, p, hp, htext, by rw [hurn, ← String.toList_inj.mp hurn']⟩

end ScimQuery
