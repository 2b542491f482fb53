import ScimQuery.Proofs.Path.Words

/-!
# Path — paths that can be read

A path is readable (`Path.Readable`) when each of its steps can be told from its text: a name made
of name characters, which a colon ends only where no dot follows, after a schema that can be told
from the first name.  A step may narrow its attribute by a value filter, of which a property `P`
is asked.

* `readFrom_readable`: what is read is readable, with any property that the reader of value
  filters gives.
* `readFrom_chars`: what is readable is read from its text, if the reader of value filters reads
  each of them back (`Within.ReadsBack`).

Both go step by step, and meet at `Readable`.  A well-formed path is one that is readable and has
no value filters at all, so that it is read whatever that reader does (`WellFormed.readable`).
-/

namespace ScimQuery.Path

open Text (Cursor isNameChar)

variable {P : Filter → Prop} {within : Within} {p : Path} {name : String}

/-! ### Readable paths -/

/-- The name may come next on the path. -/
def Takes : Path → String → Prop
  | .root urn, name => IsName name ∧ SchemaFits urn (some name)
  | .sub _ before, name => before.toList.getLast? ≠ some ':' ∧ IsName name
  | .subWhere _ _ _, name => IsName name

/-- A path that can be read, where `P` holds of each of its value filters. -/
inductive Readable (P : Filter → Prop) : Path → Prop where
  | resource : Readable P .resource
  | extension {urn : String} : SchemaFits (some urn) none → Readable P (.extension urn)
  | sub {p : Path} {name : String} : Readable P p → p.Takes name → Readable P (p.sub name)
  | subWhere {p : Path} {name : String} {f : Filter} :
      Readable P p → p.Takes name → P f → Readable P (p.subWhere name f)

theorem Takes.isName (h : p.Takes name) : IsName name := by
  cases p with
  | root urn => exact h.1
  | sub p before => exact h.2
  | subWhere p before f => exact h

/-- The root of a path that a first name fits. -/
theorem SchemaFits.readable : ∀ {urn : Option String}, SchemaFits urn (some name) →
    (root urn).Readable P
  | none, _ => .resource
  | some _, ⟨hurn, hstart, _⟩ => .extension ⟨hurn, hstart, by simp⟩

/-- A well-formed path has no value filters, whatever might be asked of them. -/
theorem WellFormed.readable : ∀ {p : Path}, p.WellFormed → p.Readable P
  | .root none, h => (wellFormed_root.mp h).elim
  | .root (some _), h => .extension (wellFormed_root.mp h)
  | .sub (.root _) _, h => by
      obtain ⟨hname, hschema⟩ := wellFormed_sub_root.mp h
      exact .sub hschema.readable ⟨hname, hschema⟩
  | .sub (.sub _ _) _, h => by
      obtain ⟨hp, hcolon, hname⟩ := wellFormed_sub_sub.mp h
      exact .sub hp.readable ⟨hcolon, hname⟩
  | .sub (.subWhere _ _ _) _, h => absurd h not_wellFormed_sub_subWhere
  | .subWhere _ _ _, h => absurd h not_wellFormed_subWhere

theorem Readable.mono {Q : Filter → Prop} (hPQ : ∀ f, P f → Q f) (h : p.Readable P) :
    p.Readable Q := by
  induction h with
  | resource => exact .resource
  | extension hurn => exact .extension hurn
  | sub _ htakes ih => exact .sub ih htakes
  | subWhere _ htakes hf ih => exact .subWhere ih htakes (hPQ _ hf)

/-- `P` holds of the value filters of a readable path, and what holds of them may be asked. -/
theorem readable_iff_elements :
    p.Readable P ↔ p.Readable (fun _ => True) ∧ ∀ e ∈ p.elements, ∀ f ∈ e.2, P f := by
  constructor
  · intro h
    refine ⟨h.mono fun _ _ => trivial, ?_⟩
    induction h with
    | resource => simp [resource]
    | extension => simp [extension]
    | sub _ _ ih =>
        rw [elements_sub, List.forall_mem_append]
        exact ⟨ih, by simp⟩
    | subWhere _ _ hf ih =>
        rw [elements_subWhere, List.forall_mem_append]
        exact ⟨ih, by simpa using hf⟩
  · rintro ⟨h, hall⟩
    induction h with
    | resource => exact .resource
    | extension hurn => exact .extension hurn
    | sub _ htakes ih =>
        rw [elements_sub, List.forall_mem_append] at hall
        exact .sub (ih hall.1) htakes
    | subWhere _ htakes _ ih =>
        rw [elements_subWhere, List.forall_mem_append] at hall
        exact .subWhere (ih hall.1) htakes (by simpa using hall.2)

/-! ### What is read is readable -/

/-- A piece is made of name characters, and a colon ends it only at a bracket or at the end of
the text. -/
theorem Piece.read_name {c : Cursor} {piece : Piece} (h : Piece.read c = .ok (some piece)) :
    (∀ d ∈ piece.name, isNameChar d = true) ∧
      (piece.opens = false → piece.next.rest ≠ [] → piece.name.getLast? ≠ some ':') := by
  obtain ⟨k, cs⟩ := c
  obtain ⟨w, s, rfl, hw, hs⟩ := Text.exists_run isNameChar cs
  cases s with
  | nil =>
      rw [List.append_nil, Piece.read_end hw] at h
      split at h
      · cases h
      · cases h
        exact ⟨hw, fun _ hne => absurd rfl hne⟩
  | cons d s =>
      rw [Piece.read_cons hw (hs d rfl)] at h
      split at h
      · cases h
        exact ⟨hw, fun hopens => nomatch hopens⟩
      · split at h
        · rename_i hdot
          split at h
          · cases h
          · cases h
            exact ⟨hw, fun _ _ => hdot.2⟩
        · cases h

theorem Piece.rest_ne_nil {c : Cursor} {piece : Piece} (h : Piece.read c = .ok (some piece)) :
    c.rest ≠ [] := by
  intro hnil
  have := Piece.read_length h
  simp [hnil] at this

theorem Piece.rest_of_read_none {c : Cursor} (h : Piece.read c = .ok none) : c.rest = [] := by
  obtain ⟨k, cs⟩ := c
  obtain ⟨w, s, rfl, hw, hs⟩ := Text.exists_run isNameChar cs
  cases s with
  | nil =>
      rw [List.append_nil, Piece.read_end hw] at h
      split at h
      · rename_i hnil
        simpa using hnil
      · cases h
  | cons d s =>
      rw [Piece.read_cons hw (hs d rfl)] at h
      split at h
      · cases h
      · split at h
        · split at h <;> cases h
        · cases h

/-- What is read so far of a path, in front of the text that is left. -/
def Resumes (P : Filter → Prop) (c : Cursor) : Option Path → Prop
  | none => True
  | some (.root _) => False
  | some (.sub p name) =>
      (p.sub name).Readable P ∧ (c.rest ≠ [] → name.toList.getLast? ≠ some ':')
  | some (.subWhere p name f) => (p.subWhere name f).Readable P

theorem Resumes.mono {c d : Cursor} (hcd : d.rest ≠ [] → c.rest ≠ []) :
    ∀ {acc : Option Path}, Resumes P c acc → Resumes P d acc
  | none, _ => trivial
  | some (.sub _ _), ⟨hp, hcolon⟩ => ⟨hp, fun hd => hcolon (hcd hd)⟩
  | some (.subWhere _ _ _), hp => hp

theorem Resumes.readable {c : Cursor} :
    ∀ {acc : Option Path}, Resumes P c acc → (acc.getD .resource).Readable P
  | none, _ => .resource
  | some (.sub _ _), ⟨hp, _⟩ => hp
  | some (.subWhere _ _ _), hp => hp

/-- A name that is read may come next on what is read so far. -/
theorem takes_of_piece {acc : Option Path} {c : Cursor} {piece : Piece} {urn : Option String}
    {name : List Char} (hpiece : Piece.read c = .ok (some piece))
    (hattach : (match acc with
      | none => splitSchema piece.name
      | some _ => (none, piece.name)) = (urn, name)) (hne : name ≠ []) (hacc : Resumes P c acc) :
    (acc.getD (.root urn)).Readable P ∧ (acc.getD (.root urn)).Takes (String.ofList name) ∧
      name.getLast? = piece.name.getLast? := by
  have hchars := (Piece.read_name hpiece).1
  cases acc with
  | none =>
      obtain ⟨hword, hschema, hlast⟩ : (∀ d ∈ name, d ∈ piece.name) ∧
          SchemaFits urn (some (String.ofList name)) ∧
            name.getLast? = piece.name.getLast? := by
        cases urn with
        | none =>
            obtain ⟨rfl, hschema⟩ := splitSchema_eq_none hattach
            exact ⟨fun d hd => hd, by simpa [SchemaFits] using hschema, rfl⟩
        | some urn =>
            obtain ⟨hword, hschema, hcolon⟩ := splitSchema_eq_some hattach
            rw [hword] at hchars ⊢
            refine ⟨fun d hd => by simp [hd], ⟨?_, hschema, ?_⟩, ?_⟩
            · intro d hd
              exact hchars d (by simp [hd])
            · simpa using hcolon
            · simp [List.getLast?_append, List.getLast?_cons, List.getLast?_eq_some_getLast hne]
      have hname : IsName (String.ofList name) :=
        ⟨by simpa using hne, fun d hd => hchars d (hword d (by simpa using hd))⟩
      exact ⟨hschema.readable, ⟨hname, hschema⟩, hlast⟩
  | some p =>
      cases hattach
      have hname : IsName (String.ofList piece.name) :=
        ⟨by simpa using hne, fun d hd => hchars d (by simpa using hd)⟩
      have hleft := Piece.rest_ne_nil hpiece
      cases p with
      | root => exact hacc.elim
      | sub => exact ⟨hacc.1, ⟨hacc.2 hleft, hname⟩, rfl⟩
      | subWhere => exact ⟨hacc, hname, rfl⟩

/-- **What is read is readable**, and the value filters are as they are read. -/
theorem readFrom_readable
    (hwithin : ∀ {opened c found}, within opened c = .ok found → P found.1)
    {acc : Option Path} {due : Bool} {c after : Cursor} (hacc : Resumes P c acc)
    (h : readFrom within acc due c = .ok (p, after)) : p.Readable P := by
  fun_induction readFrom within acc due c with
  | case1 => cases h
  | case2 acc due c hnone =>
      cases h
      exact hacc.readable
  | case3 acc c piece hpiece _ hdot ih =>
      exact ih (hacc.mono fun _ => Piece.rest_ne_nil hpiece) h
  | case4 => cases h
  | case5 => cases h
  | case6 acc due c piece hpiece _ _ _ name _ urn _ hattach =>
      -- a schema with nothing after it
      cases acc with
      | some p => cases hattach
      | none =>
          obtain rfl : extension urn = p := congrArg Prod.fst (Except.ok.inj h)
          obtain ⟨hword, hschema, -⟩ := splitSchema_eq_some hattach
          refine .extension ⟨?_, hschema, by simp⟩
          intro d hd
          exact (Piece.read_name hpiece).1 d (by simp [hword, hd])
  | case7 => cases h
  | case8 => cases h
  | case9 acc due c piece hpiece _ _ _ urn name hattach _ hname _ f next hnext hfilter ih =>
      obtain ⟨hparent, htakes, -⟩ := takes_of_piece hpiece hattach (by simpa using hname) hacc
      exact ih (.subWhere hparent htakes (hwithin hfilter)) h
  | case10 acc due c piece hpiece _ _ _ urn name hattach _ hname hopens ih =>
      obtain ⟨hparent, htakes, hlast⟩ := takes_of_piece hpiece hattach (by simpa using hname) hacc
      refine ih ⟨.sub hparent htakes, ?_⟩ h
      rw [String.toList_ofList, hlast]
      exact (Piece.read_name hpiece).2 (by simpa using hopens)

/-! ### What is readable is read -/

/-- The filter is read back from its text, up to the bracket behind it. -/
def Within.ReadsBack (within : Within) (f : Filter) : Prop :=
  ∀ opened k s, ∃ h, within opened ⟨k, f.chars ++ ']' :: s⟩ =
    .ok (f, ⟨⟨k + f.chars.length + 1, s⟩, h⟩)

theorem isNameChar_colon : isNameChar ':' = true := by decide +kernel

theorem isNameChar_bracket : isNameChar '[' = false := by decide +kernel

/-- The first piece of a path: its schema, if there is one, and its first name. -/
theorem attach_root {urn : Option String} {name : String} (hname : IsName name)
    (hschema : SchemaFits urn (some name)) :
    attach none ((root urn).stem ++ name.toList) = (root urn, name.toList) ∧
      (∀ c ∈ (root urn).stem ++ name.toList, isNameChar c = true) := by
  cases urn with
  | none => exact ⟨by simp [attach, stem_root_none, splitSchema_of_not_hasSchema hschema], hname.2⟩
  | some urn =>
      obtain ⟨hurn, hstart, hcolon⟩ := hschema
      have hsplit := splitSchema_append hstart (hcolon name rfl)
      rw [stem_root_some, List.append_assoc]
      refine ⟨by simp [attach, hsplit], ?_⟩
      intro c hc
      rcases List.mem_append.mp hc with hc | hc
      · exact hurn c hc
      · rcases List.mem_cons.mp hc with rfl | hc
        · exact isNameChar_colon
        · exact hname.2 c hc

/-- The dot that is due after a value filter. -/
theorem readFrom_due (k : Nat) {s : List Char} (hs : s ≠ []) :
    readFrom within (some p) true ⟨k, '.' :: s⟩ = readFrom within (some p) false ⟨k + 1, s⟩ := by
  have hpiece : Piece.read ⟨k, '.' :: s⟩ = .ok (some ⟨[], false, k, ⟨k + 1, s⟩⟩) := by
    have := @Piece.read_cons k [] s '.' (by simp) Text.isNameChar_dot
    simpa [hs] using this
  rw [readFrom]
  split
  · rename_i he; rw [hpiece] at he; cases he
  · rename_i he; rw [hpiece] at he; cases he
  · rename_i piece he
    obtain rfl : ⟨[], false, k, ⟨k + 1, s⟩⟩ = piece := by rw [hpiece] at he; cases he; rfl
    simp

/-- Reading a name and its value filter. -/
theorem readFrom_narrowed {acc : Option Path} {w : List Char} {f : Filter}
    (hattach : attach acc w = (p, name.toList)) (hname : IsName name)
    (hw : ∀ c ∈ w, isNameChar c = true) (hf : within.ReadsBack f) (k : Nat) (s : List Char) :
    readFrom within acc false ⟨k, w ++ '[' :: (f.chars ++ ']' :: s)⟩ =
      readFrom within (some (p.subWhere name f)) true
        ⟨k + w.length + 1 + f.chars.length + 1, s⟩ := by
  have hpiece := Piece.read_cons (k := k) (s := f.chars ++ ']' :: s) hw isNameChar_bracket
  rw [if_pos rfl] at hpiece
  obtain ⟨h, hread⟩ := hf k (k + w.length + 1) s
  rw [readFrom_opens hpiece (by rw [hattach]; exact hname.toList_ne_nil), hread, hattach,
    String.ofList_toList]
  rfl

/-- Reading a readable path comes to the piece of its last name, whatever follows it. -/
theorem readFrom_stem (k : Nat) : ∀ {p : Path} {name : String},
    p.Readable within.ReadsBack → p.Takes name →
      ∃ acc piece j, attach acc piece = (p, name.toList) ∧
        (∀ c ∈ piece, isNameChar c = true) ∧ piece.getLast? = name.toList.getLast? ∧
        j + piece.length = k + (p.sub name).chars.length ∧
        ∀ s, readFrom within none false ⟨k, (p.sub name).chars ++ s⟩ =
          readFrom within acc false ⟨j, piece ++ s⟩
  | .root urn, name, _, ⟨hname, hschema⟩ => by
      obtain ⟨hattach, hchars⟩ := attach_root hname hschema
      refine ⟨none, (root urn).stem ++ name.toList, k, hattach, hchars, ?_, ?_, ?_⟩
      · simp [List.getLast?_append, List.getLast?_eq_some_getLast hname.toList_ne_nil]
      · rw [chars_sub]
      · intro s
        rw [chars_sub]
  | .sub p before, name, .sub hp htakes, ⟨hcolon, hname⟩ => by
      obtain ⟨acc, piece, j, hattach, hpiece, hlast, hj, hread⟩ := readFrom_stem k hp htakes
      have hbefore := htakes.isName
      have hne : piece ≠ [] := by
        rintro rfl
        exact hbefore.toList_ne_nil (List.getLast?_eq_none_iff.mp hlast.symm)
      have hchars : ((p.sub before).sub name).chars =
          (p.sub before).chars ++ '.' :: name.toList := by
        rw [chars_sub, stem_sub, chars_sub]
        simp
      refine ⟨some (p.sub before), name.toList, j + piece.length + 1, rfl, hname.2, rfl, ?_, ?_⟩
      · rw [hchars, hj, List.length_append, List.length_cons]
        omega
      · intro s
        rw [hchars, List.append_assoc, hread, List.cons_append, readFrom_dot hpiece hne
          (hlast ▸ hcolon) (by simp [hname.toList_ne_nil])
          (by rw [hattach]; exact hbefore.toList_ne_nil), hattach, String.ofList_toList]
  | .subWhere p before f, name, .subWhere hp htakes hf, hname => by
      obtain ⟨acc, piece, j, hattach, hpiece, -, hj, hread⟩ := readFrom_stem k hp htakes
      have hchars : ((p.subWhere before f).sub name).chars =
          (p.sub before).chars ++ '[' :: (f.chars ++ ']' :: '.' :: name.toList) := by
        rw [chars_sub, stem_subWhere, chars_sub]
        simp
      refine ⟨some (p.subWhere before f), name.toList,
        j + piece.length + 1 + f.chars.length + 1 + 1, rfl, hname.2, rfl, ?_, ?_⟩
      · rw [hchars, hj]
        simp only [List.length_append, List.length_cons]
        omega
      · intro s
        have hparts : ((p.subWhere before f).sub name).chars ++ s =
            (p.sub before).chars ++ '[' :: (f.chars ++ ']' :: ('.' :: (name.toList ++ s))) := by
          rw [hchars]
          simp
        -- the dot behind the bracket is no end of a name
        rw [hparts, hread, readFrom_narrowed hattach htakes.isName hpiece hf,
          readFrom_due _ (by simp [hname.toList_ne_nil])]

/-- **A readable path is read from its text.** -/
theorem readFrom_chars (k : Nat) (h : p.Readable within.ReadsBack) :
    readFrom within none false ⟨k, p.chars⟩ = .ok (p, ⟨k + p.chars.length, []⟩) := by
  cases h with
  | resource =>
      rw [readFrom]
      rfl
  | @extension urn hschema =>
      obtain ⟨hurn, hstart, -⟩ := hschema
      have hchars : (extension urn).chars = urn.toList ++ [':'] := rfl
      have hword : ∀ c ∈ urn.toList ++ [':'], isNameChar c = true := by
        intro c hc
        rcases List.mem_append.mp hc with hc | hc
        · exact hurn c hc
        · obtain rfl := List.mem_singleton.mp hc
          exact isNameChar_colon
      have hsplit : splitSchema (urn.toList ++ [':']) = (some urn, []) := by
        simpa using splitSchema_append hstart (List.not_mem_nil : ':' ∉ [])
      have hpiece := Piece.read_end (k := k) hword
      rw [if_neg (by simp)] at hpiece
      rw [hchars, readFrom_schema hpiece (by simp) hsplit]
      rfl
  | @sub p name hp htakes =>
      have hname := htakes.isName
      obtain ⟨acc, piece, j, hattach, hpiece, hlast, hj, hread⟩ := readFrom_stem k hp htakes
      have hne : piece ≠ [] := by
        rintro rfl
        exact hname.toList_ne_nil (List.getLast?_eq_none_iff.mp hlast.symm)
      have hwhole := hread []
      rw [List.append_nil, List.append_nil] at hwhole
      rw [hwhole, readFrom_last hpiece hne (by rw [hattach]; exact hname.toList_ne_nil), hattach,
        String.ofList_toList, hj]
  | @subWhere p name f hp htakes hf =>
      obtain ⟨acc, piece, j, hattach, hpiece, -, hj, hread⟩ := readFrom_stem k hp htakes
      have hchars : (p.subWhere name f).chars =
          (p.sub name).chars ++ '[' :: (f.chars ++ [']']) := by
        rw [chars_subWhere, chars_sub]
        simp
      rw [hchars, hread, readFrom_narrowed hattach htakes.isName hpiece hf, readFrom_end, hj]
      simp only [List.length_append, List.length_cons, List.length_nil]
      congr 3
      omega

/-- A readable path is read from its text up to a bracket, which opens the value filter of its
last attribute. -/
theorem readFrom_chars_bracket (within : Within) (k : Nat)
    (h : (p.sub name).Readable within.ReadsBack) (s : List Char) :
    ∃ opened, readFrom within none false ⟨k, (p.sub name).chars ++ '[' :: s⟩ =
      match within opened ⟨k + (p.sub name).chars.length + 1, s⟩ with
      | .error e => .error e
      | .ok (f, ⟨after, _⟩) => readFrom within (some (p.subWhere name f)) true after := by
  obtain ⟨hp, htakes⟩ : p.Readable within.ReadsBack ∧ p.Takes name := by
    cases h with
    | sub hp htakes => exact ⟨hp, htakes⟩
  obtain ⟨acc, piece, j, hattach, hpiece, -, hj, hread⟩ := readFrom_stem k hp htakes
  have hopens := Piece.read_cons (k := j) (s := s) hpiece isNameChar_bracket
  rw [if_pos rfl] at hopens
  refine ⟨j, ?_⟩
  rw [hread, readFrom_opens hopens (by rw [hattach]; exact htakes.isName.toList_ne_nil), hattach,
    String.ofList_toList, hj]
  cases within j ⟨k + (p.sub name).chars.length + 1, s⟩ <;> rfl

/-- A well-formed path is the path of its text. -/
theorem ofWord_chars (h : p.WellFormed) : ofWord p.chars = .ok p := by
  rw [ofWord, Cursor.start, readFrom_chars 0 h.readable]
  rfl

end ScimQuery.Path
