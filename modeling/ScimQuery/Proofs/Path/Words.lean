import ScimQuery.Proofs.Path.WellFormed
import ScimQuery.Proofs.Text.Outcome

/-!
# Path — reading the word of a path

Reading takes a path name by name: a name goes from the front of the text to the path read so
far (`readFrom_last`, `readFrom_dot`, `readFrom_opens`).  A path that is read from a text without
bracket is well-formed, and the text is its own (`readFrom_sound`).
-/

namespace ScimQuery.Path

open Text (Cursor isNameChar)

variable {within : Within} {acc : Option Path} {k : Nat} {w s : List Char}

/-! ### Pieces -/

theorem Piece.read_end (hw : ∀ c ∈ w, isNameChar c = true) :
    Piece.read ⟨k, w⟩ =
      .ok (if w.isEmpty then none else some ⟨w, false, k, ⟨k + w.length, []⟩⟩) := by
  have stop := Cursor.skipWhile_run (s := []) hw (by simp) k
  have name := Text.takeWhile_run (s := []) hw (by simp)
  rw [List.append_nil] at stop name
  simp only [Piece.read, stop, name]

theorem Piece.read_cons {d : Char} (hw : ∀ c ∈ w, isNameChar c = true)
    (hd : isNameChar d = false) :
    Piece.read ⟨k, w ++ d :: s⟩ =
      if d = '[' then .ok (some ⟨w, true, k, ⟨k + w.length + 1, s⟩⟩)
      else if d = '.' ∧ w.getLast? ≠ some ':' then
        if s.isEmpty then .error .unexpectedEndOfPath
        else .ok (some ⟨w, false, k, ⟨k + w.length + 1, s⟩⟩)
      else .error (.unexpectedCharacter d (k + w.length) k) := by
  have stop := Cursor.skipWhile_run (s := d :: s) hw (by simpa using hd) k
  have name := Text.takeWhile_run (s := d :: s) hw (by simpa using hd)
  simp only [Piece.read, stop, name]

/-! ### One name -/

/-- The path that a piece is added to, and the name that it adds: the first piece may carry a
schema. -/
def attach (acc : Option Path) (piece : List Char) : Path × List Char :=
  match acc with
  | none => (root (splitSchema piece).1, (splitSchema piece).2)
  | some p => (p, piece)

theorem readFrom_of_error {due : Bool} {c : Cursor} {e : Error} (h : Piece.read c = .error e) :
    readFrom within acc due c = .error e := by
  rw [readFrom]
  split
  · rename_i he; rw [h] at he; cases he; rfl
  · rename_i he; rw [h] at he; cases he
  · rename_i he; rw [h] at he; cases he

theorem readFrom_of_none {due : Bool} {c : Cursor} (h : Piece.read c = .ok none) :
    readFrom within acc due c = .ok (acc.getD .resource, c) := by
  rw [readFrom]
  split
  · rename_i he; rw [h] at he; cases he
  · rfl
  · rename_i he; rw [h] at he; cases he

/-- Reading a piece where a dot is due: nothing may stand in front of the dot. -/
theorem readFrom_due_some {c : Cursor} {piece : Piece} (h : Piece.read c = .ok (some piece)) :
    readFrom within acc true c =
      if piece.name.isEmpty ∧ ¬ piece.opens then readFrom within acc false piece.next
      else .error (.unexpectedToken (String.ofList piece.name) piece.position) := by
  rw [readFrom]
  split
  · rename_i he; rw [h] at he; cases he
  · rename_i he; rw [h] at he; cases he
  · rename_i piece' he
    obtain rfl : piece' = piece := by rw [h] at he; cases he; rfl
    rfl

/-- A piece that adds a name is one. -/
theorem ne_nil_of_attach (h : (attach acc w).2 ≠ []) : w ≠ [] := by
  rintro rfl
  cases acc <;> exact h rfl

/-- Reading a piece where no dot is due. -/
theorem readFrom_some {c : Cursor} {piece : Piece} (h : Piece.read c = .ok (some piece)) :
    readFrom within acc false c =
      if piece.name.isEmpty ∧ ¬ piece.opens then .error (.attributeNameExpected piece.position)
      else if (attach acc piece.name).2.isEmpty then
        match acc, (splitSchema piece.name).1, piece.opens with
        | none, some urn, false => .ok (root (some urn), piece.next)
        | _, _, _ => .error (.attributeNameExpected piece.position)
      else if piece.opens then
        match within piece.position piece.next with
        | .error e => .error e
        | .ok (f, ⟨after, _⟩) =>
          readFrom within
            (some ((attach acc piece.name).1.subWhere
              (String.ofList (attach acc piece.name).2) f)) true after
      else
        readFrom within
          (some ((attach acc piece.name).1.sub (String.ofList (attach acc piece.name).2))) false
          piece.next := by
  rw [readFrom]
  split
  · rename_i he; rw [h] at he; cases he
  · rename_i he; rw [h] at he; cases he
  · rename_i piece' he
    obtain rfl : piece' = piece := by rw [h] at he; cases he; rfl
    cases acc with
    | some p => cases within piece'.position piece'.next <;> simp [attach]
    | none =>
        cases hurn : (splitSchema piece'.name).1 with
        | none => cases within piece'.position piece'.next <;> simp [attach, hurn]
        | some urn =>
            cases hopens : piece'.opens with
            | false => simp [attach, hurn]
            | true => cases within piece'.position piece'.next <;> simp [attach, hurn]

/-- Reading a piece that is a name and ends at a dot or at the end of the text. -/
theorem readFrom_piece {c next : Cursor}
    (h : Piece.read c = .ok (some ⟨w, false, k, next⟩)) (hw : w ≠ [])
    (hname : (attach acc w).2 ≠ []) :
    readFrom within acc false c =
      readFrom within (some ((attach acc w).1.sub (String.ofList (attach acc w).2))) false
        next := by
  rw [readFrom_some h]
  simp [hw, hname]

/-- Reading a piece that is a name and ends at a bracket. -/
theorem readFrom_opens {c next : Cursor}
    (h : Piece.read c = .ok (some ⟨w, true, k, next⟩)) (hname : (attach acc w).2 ≠ []) :
    readFrom within acc false c =
      within k next >>= fun found =>
        readFrom within
          (some ((attach acc w).1.subWhere (String.ofList (attach acc w).2) found.1)) true
          found.2.1 := by
  rw [readFrom_some h]
  cases within k next <;> simp [hname] <;> rfl

/-- Reading a piece that is a schema and nothing else. -/
theorem readFrom_schema {c next : Cursor} {urn : String}
    (h : Piece.read c = .ok (some ⟨w, false, k, next⟩)) (hw : w ≠ [])
    (hsplit : splitSchema w = (some urn, [])) :
    readFrom within none false c = .ok (root (some urn), next) := by
  rw [readFrom_some h]
  simp [attach, hw, hsplit]

/-- A piece that adds no name ends a path only as a schema by itself. -/
theorem readFrom_nameless {c next after : Cursor} {p : Path}
    (h : Piece.read c = .ok (some ⟨w, false, k, next⟩)) (hname : (attach acc w).2 = [])
    (hread : readFrom within acc false c = .ok (p, after)) :
    acc = none ∧ w ≠ [] ∧ ∃ urn, splitSchema w = (some urn, []) ∧ p = root (some urn) := by
  have hw : w ≠ [] := by
    rintro rfl
    rw [readFrom_some h] at hread
    simp at hread
  rw [readFrom_some h] at hread
  simp only [hname] at hread
  cases acc with
  | some q => simp [hw] at hread
  | none =>
      have hsplit : splitSchema w = ((splitSchema w).1, []) := by rw [← hname]; rfl
      cases hurn : (splitSchema w).1 with
      | none => simp [hw, hurn] at hread
      | some urn =>
          rw [hurn] at hsplit
          simp [hw, hurn] at hread
          exact ⟨rfl, hw, urn, hsplit, hread.1.symm⟩

theorem readFrom_end (p : Path) (due : Bool) :
    readFrom within (some p) due ⟨k, []⟩ = .ok (p, ⟨k, []⟩) := by
  rw [readFrom]
  rfl

/-- Reading a name at the end of the text. -/
theorem readFrom_last (hw : ∀ c ∈ w, isNameChar c = true) (hne : w ≠ [])
    (hname : (attach acc w).2 ≠ []) :
    readFrom within acc false ⟨k, w⟩ =
      .ok ((attach acc w).1.sub (String.ofList (attach acc w).2), ⟨k + w.length, []⟩) := by
  have hpiece : Piece.read ⟨k, w⟩ = .ok (some ⟨w, false, k, ⟨k + w.length, []⟩⟩) := by
    simp [Piece.read_end hw, hne]
  rw [readFrom_piece hpiece hne hname, readFrom_end]

/-- Reading a name up to a dot. -/
theorem readFrom_dot (hw : ∀ c ∈ w, isNameChar c = true) (hne : w ≠ [])
    (hcolon : w.getLast? ≠ some ':') (hs : s ≠ []) (hname : (attach acc w).2 ≠ []) :
    readFrom within acc false ⟨k, w ++ '.' :: s⟩ =
      readFrom within (some ((attach acc w).1.sub (String.ofList (attach acc w).2))) false
        ⟨k + w.length + 1, s⟩ := by
  have hpiece : Piece.read ⟨k, w ++ '.' :: s⟩ =
      .ok (some ⟨w, false, k, ⟨k + w.length + 1, s⟩⟩) := by
    simp [Piece.read_cons hw Text.isNameChar_dot, hcolon, hs]
  exact readFrom_piece hpiece hne hname

/-! ### A text without bracket -/

/-- What is read so far of a path, in front of a name. -/
def Started : Option Path → Prop
  | none => True
  | some p => p.WellFormed ∧ p.isRoot = false ∧
      ∀ e ∈ p.elements.getLast?, e.1.toList.getLast? ≠ some ':'

/-- The text of what is read so far. -/
def startedStem : Option Path → List Char
  | none => []
  | some p => p.stem

/-- A piece that adds a name makes a well-formed path, whose text is that of the piece. -/
theorem attach_wellFormed (hacc : Started acc) (hw : ∀ c ∈ w, isNameChar c = true)
    (hname : (attach acc w).2 ≠ []) :
    ((attach acc w).1.sub (String.ofList (attach acc w).2)).WellFormed ∧
      (attach acc w).1.stem ++ (attach acc w).2 = startedStem acc ++ w ∧
      (attach acc w).2.getLast? = w.getLast? := by
  cases acc with
  | some p =>
      refine ⟨?_, rfl, rfl⟩
      have hisName : IsName (String.ofList w) := ⟨by simpa [attach] using hname, by simpa using hw⟩
      obtain ⟨hp, hroot, hlast⟩ := hacc
      cases p with
      | root urn => cases hroot
      | sub p name => exact wellFormed_sub_sub.mpr ⟨hp, hlast (name, none) (by simp), hisName⟩
      | subWhere p name f => exact absurd hp not_wellFormed_subWhere
  | none =>
      obtain ⟨urn, name, hsplit⟩ : ∃ urn name, splitSchema w = (urn, name) := ⟨_, _, rfl⟩
      simp only [attach, hsplit] at hname ⊢
      cases urn with
      | none =>
          obtain ⟨rfl, hschema⟩ := splitSchema_eq_none hsplit
          refine ⟨wellFormed_sub_root.mpr ⟨⟨by simpa using hname, by simpa using hw⟩, ?_⟩, rfl, rfl⟩
          simpa [SchemaFits] using hschema
      | some urn =>
          obtain ⟨rfl, hschema, hcolon⟩ := splitSchema_eq_some hsplit
          refine ⟨wellFormed_sub_root.mpr ⟨⟨by simpa using hname, ?_⟩, ?_, hschema,
            by simpa using hcolon⟩, ?_, ?_⟩
          · intro c hc
            rw [String.toList_ofList] at hc
            exact hw c (by simp [hc])
          · intro c hc
            exact hw c (by simp [hc])
          · simp [stem_root_some, startedStem]
          · simp [List.getLast?_append, List.getLast?_cons, List.getLast?_eq_some_getLast hname]

/-- The last name of a text, or a schema by itself. -/
theorem readFrom_last_sound {p : Path} {after : Cursor} (hacc : Started acc)
    (hw : ∀ c ∈ w, isNameChar c = true) (hne : w ≠ [])
    (h : readFrom within acc false ⟨k, w⟩ = .ok (p, after)) :
    p.WellFormed ∧ p.chars = startedStem acc ++ w := by
  have hpiece : Piece.read ⟨k, w⟩ = .ok (some ⟨w, false, k, ⟨k + w.length, []⟩⟩) := by
    simp [Piece.read_end hw, hne]
  by_cases hname : (attach acc w).2 = []
  · obtain ⟨rfl, -, urn, hsplit, rfl⟩ := readFrom_nameless hpiece hname h
    obtain ⟨hword, hschema, -⟩ := splitSchema_eq_some hsplit
    refine ⟨wellFormed_root.mpr ⟨fun c hc => hw c ?_, hschema, by simp⟩, ?_⟩
    · rw [hword]
      exact List.mem_append_left _ hc
    · rw [hword]
      rfl
  · rw [readFrom_last hw hne hname] at h
    cases h
    obtain ⟨hwf, htext, -⟩ := attach_wellFormed hacc hw hname
    exact ⟨hwf, by rw [chars_sub, String.toList_ofList, htext]⟩

/-- A name in front of a dot is added to what is read so far. -/
theorem readFrom_dot_sound {p : Path} {after : Cursor} (hacc : Started acc)
    (hw : ∀ c ∈ w, isNameChar c = true) (hcolon : w.getLast? ≠ some ':') (hs : s ≠ [])
    (h : readFrom within acc false ⟨k, w ++ '.' :: s⟩ = .ok (p, after)) :
    ∃ q, Started (some q) ∧ startedStem (some q) = startedStem acc ++ (w ++ ['.']) ∧
      readFrom within (some q) false ⟨k + w.length + 1, s⟩ = .ok (p, after) := by
  have hpiece : Piece.read ⟨k, w ++ '.' :: s⟩ =
      .ok (some ⟨w, false, k, ⟨k + w.length + 1, s⟩⟩) := by
    simp [Piece.read_cons hw Text.isNameChar_dot, hcolon, hs]
  by_cases hname : (attach acc w).2 = []
  · -- a schema by itself ends with its colon
    obtain ⟨rfl, -, urn, hsplit, rfl⟩ := readFrom_nameless hpiece hname h
    obtain ⟨hword, -, -⟩ := splitSchema_eq_some hsplit
    exact absurd (by simp [hword]) hcolon
  · have hne := ne_nil_of_attach hname
    rw [readFrom_dot hw hne hcolon hs hname] at h
    obtain ⟨hwf, htext, hlast⟩ := attach_wellFormed hacc hw hname
    refine ⟨_, ⟨hwf, rfl, by simpa [hlast] using hcolon⟩, ?_, h⟩
    rw [startedStem, stem_sub, String.toList_ofList, ← List.append_assoc, htext,
      List.append_assoc]

/-- Any other character ends no name. -/
theorem readFrom_stray (within : Within) (acc : Option Path) (k : Nat) {d : Char}
    (hw : ∀ c ∈ w, isNameChar c = true)
    (hd : isNameChar d = false) (hopen : d ≠ '[')
    (hdot : ¬ (d = '.' ∧ w.getLast? ≠ some ':' ∧ s ≠ [])) :
    ∃ e, readFrom within acc false ⟨k, w ++ d :: s⟩ = .error e := by
  have herror : ∃ e, Piece.read ⟨k, w ++ d :: s⟩ = .error e := by
    rw [Piece.read_cons hw hd, if_neg hopen]
    split
    · rw [if_pos (by simp_all)]
      exact ⟨_, rfl⟩
    · exact ⟨_, rfl⟩
  obtain ⟨e, he⟩ := herror
  refine ⟨e, ?_⟩
  rw [readFrom]
  split
  · rename_i he'; rw [he] at he'; cases he'; rfl
  · rename_i hnone; rw [he] at hnone; cases hnone
  · rename_i hsome; rw [he] at hsome; cases hsome

/-- **A path read from a text without bracket** is well-formed, and its text is the one that was
read. -/
theorem readFrom_sound {within : Within} : ∀ {cs : List Char} {acc : Option Path} {k : Nat}
    {p : Path} {after : Cursor}, Started acc → '[' ∉ cs → cs ≠ [] →
    readFrom within acc false ⟨k, cs⟩ = .ok (p, after) →
      p.WellFormed ∧ p.chars = startedStem acc ++ cs
  | cs, acc, k, p, after, hacc, hbracket, hcs, h => by
      -- the recursion is on the text: one name goes to `acc` at a time
      obtain ⟨w, s, rfl, hw, hs⟩ := Text.exists_run isNameChar cs
      cases s with
      | nil =>
          rw [List.append_nil] at h hcs ⊢
          exact readFrom_last_sound hacc hw hcs h
      | cons d s =>
          by_cases hdot : d = '.' ∧ w.getLast? ≠ some ':' ∧ s ≠ []
          · obtain ⟨rfl, hcolon, hs⟩ := hdot
            obtain ⟨q, hq, hstem, hread⟩ := readFrom_dot_sound hacc hw hcolon hs h
            obtain ⟨hp, hchars⟩ := readFrom_sound hq (by simp_all) hs hread
            refine ⟨hp, ?_⟩
            rw [hchars, hstem]
            simp
          · have hopen : d ≠ '[' := by
              rintro rfl
              simp at hbracket
            obtain ⟨e, he⟩ := readFrom_stray within acc k hw (hs d rfl) hopen hdot
            rw [he] at h
            cases h
termination_by cs => cs.length

/-! ### Words -/

/-- The path of a word is well-formed, and the word is its text. -/
theorem ofWord_sound {word : List Char} {p : Path} (hne : word ≠ []) (hbracket : '[' ∉ word)
    (h : ofWord word = .ok p) : p.WellFormed ∧ p.chars = word := by
  obtain ⟨⟨q, after⟩, hread, hq⟩ := Text.bind_eq_ok_iff.mp h
  cases hq
  have hstarted : Started none := trivial
  exact readFrom_sound hstarted hbracket hne hread

end ScimQuery.Path
