import Mathlib.Data.List.TakeWhile
import ScimQuery.Proofs.Error.Shift
import ScimQuery.Proofs.Filter.Places
import ScimQuery.Proofs.Filter.Steps
import ScimQuery.Proofs.Path.Words

/-!
# Filter — blanks around a text

Blanks around a text only move its places.  Every reader, started `k` characters further on, does
what it does otherwise, with its places `k` characters further on.

* `Token.read_shift`, `Phrase.read_shift`: the tokens and the phrases.
* `Level.closeGroup_shift`, `Reading.step_shift`: one step.  Folding is no matter of places.
* `Reading.run_shift`: from it, by induction, a whole run.
* `Path.readFrom_shift`: paths, where a word is read by a reader of its own that starts anew.
-/

namespace ScimQuery

open Text (Cursor isBlank isNameChar isWordChar)

variable {k : Nat}

/-! ### Tokens -/

namespace Token

/-- The token `k` characters further on. -/
def Lexeme.shift (k : Nat) (l : Lexeme) : Lexeme :=
  ⟨l.token, l.position + k, l.next.shift k⟩

theorem read_shift (region : Region) (c : Cursor) :
    read region (c.shift k) = shifted k (Option.map (Lexeme.shift k)) (read region c) := by
  obtain ⟨p, cs⟩ := c
  obtain ⟨spaces, cs, rfl, hspaces, hcs⟩ := Text.exists_run (· == ' ') cs
  have hspaces : ∀ c ∈ spaces, c = ' ' := fun c hc => by simpa using hspaces c hc
  obtain ⟨w, s, rfl, hw, hs⟩ := Text.exists_run isWordChar cs
  rw [Cursor.shift_mk, read_spaces hspaces, read_spaces hspaces, Nat.add_right_comm]
  cases s with
  | nil =>
      rw [List.append_nil, read_run_nil hw, read_run_nil hw]
      cases w with
      | nil => rfl
      | cons c w => simp [Lexeme.shift, Nat.add_right_comm]
  | cons d s =>
      have hspace : w = [] → d ≠ ' ' := by
        rintro rfl rfl
        simpa using hcs ' ' rfl
      rw [read_run_cons hw (hs d rfl) hspace, read_run_cons hw (hs d rfl) hspace]
      split
      · simp [Lexeme.shift, Nat.add_right_comm]
      · split
        · simp [Lexeme.shift, Nat.add_right_comm]
        · split
          · split <;> simp [Lexeme.shift, Nat.add_right_comm]
          · simp [Error.shift, Nat.add_right_comm]

end Token

/-! ### Phrases -/

namespace Phrase

/-- The phrase `k` characters further on. -/
def shift (k : Nat) : Phrase → Phrase
  | .openValue path position => .openValue path (position + k)
  | .closeGroup position => .closeGroup (position + k)
  | phrase => phrase

variable {region : Region} {word : List Char} {p : Nat}

theorem readPath_shift : readPath word (p + k) = shifted k id (readPath word p) := by
  unfold readPath
  cases Path.ofWord word <;> rfl

theorem readValue_shift (c : Cursor) :
    readValue (c.shift k) = shifted k (Prod.map id (Cursor.shift k)) (readValue c) := by
  unfold readValue
  rw [Cursor.shift_rest]
  cases Literal.scan c.rest with
  | error fault => rfl
  | ok found =>
      cases found with
      | none => rfl
      | some literal => simp [Cursor.skip_shift]

theorem readCondition_shift (c : Cursor) :
    readCondition region word (p + k) (c.shift k) =
      shifted k (Prod.map id (Cursor.shift k)) (readCondition region word p c) := by
  unfold readCondition
  rw [readPath_shift, Token.read_shift]
  cases readPath word p with
  | error e => rfl
  | ok path =>
      cases Token.read region c with
      | error e => rfl
      | ok found =>
          rcases found with _ | ⟨t, place, next⟩
          · rfl
          cases t with
          | word op =>
              simp only [shifted_ok, id, Option.map, Token.Lexeme.shift, readValue_shift]
              split
              · rfl
              · cases Operator.ofKeyword? op with
                | none => rfl
                | some operator => cases readValue next <;> rfl
          | _ => rfl

theorem readNegated_shift (c : Cursor) :
    readNegated region (c.shift k) =
      shifted k (Prod.map (shift k) (Cursor.shift k)) (readNegated region c) := by
  unfold readNegated
  rw [Token.read_shift]
  cases Token.read region c with
  | error e => rfl
  | ok found =>
      rcases found with _ | ⟨t, place, next⟩
      · rfl
      · cases t <;> rfl

theorem readOperand_shift (t : Token) (next : Cursor) :
    readOperand region t (p + k) (next.shift k) =
      shifted k (Prod.map (shift k) (Cursor.shift k)) (readOperand region t p next) := by
  unfold readOperand
  cases t with
  | word w =>
      simp only [readNegated_shift, readCondition_shift]
      split
      · rfl
      · cases readCondition region w p next <;> rfl
  | valuePath w =>
      simp only [readPath_shift]
      split
      · rfl
      · cases readPath w p <;> rfl
  | _ => rfl

theorem ofToken_shift (t : Token) : ofToken t (p + k) = shifted k (shift k) (ofToken t p) := by
  unfold ofToken
  cases t with
  | word w =>
      dsimp only
      split
      · rfl
      · split <;> rfl
  | _ => rfl

theorem read_shift (region : Region) (due : Bool) (c : Cursor) :
    read region due (c.shift k) =
      shifted k (Option.map (Prod.map (shift k) (Cursor.shift k))) (read region due c) := by
  unfold read
  rw [Token.read_shift]
  cases Token.read region c with
  | error e => rfl
  | ok found =>
      rcases found with _ | ⟨t, p, next⟩
      · rfl
      simp only [shifted_ok, Option.map, Token.Lexeme.shift, readOperand_shift, ofToken_shift]
      cases due with
      | true => cases readOperand region t p next <;> rfl
      | false => cases ofToken t p <;> rfl

end Phrase

/-! ### Levels -/

namespace Level

/-- The level `k` characters further on. -/
def shift (k : Nat) (l : Level) : Level :=
  { l with bracket := l.bracket.map (· + k) }

variable {l : Level}

@[simp] theorem region_shift : (l.shift k).region = l.region := by
  cases l with
  | mk bracket => cases bracket <;> rfl

theorem openGroup_shift (limits : Limits) (negated : Bool) :
    (l.shift k).openGroup limits negated = shifted k (shift k) (l.openGroup limits negated) := by
  unfold openGroup
  split
  · rename_i h
    rw [if_pos (show limits.maxDepth ≤ l.nesting from h)]
    rfl
  · rename_i h
    rw [if_neg (show ¬ limits.maxDepth ≤ l.nesting from h)]
    rfl

theorem closeGroup_shift (position : Nat) :
    (l.shift k).closeGroup (position + k) = shifted k (shift k) (l.closeGroup position) := by
  refine bind_shifted (fun _ => Starved.located (foldRuns_refuses met_none l.marks l.operands)) ?_
  rintro ⟨group, marks, operands⟩
  match group with
  | none => rfl
  | some false => rfl
  | some true => cases operands <;> rfl

theorem join_shift (j : Junction) : (l.shift k).join j = shifted k (shift k) (l.join j) := by
  cases j with
  | and => rfl
  | or =>
      have hfold := foldAnds_refuses [] l.marks l.operands
      exact bind_shifted (fun _ => Starved.located hfold) fun _ => rfl

theorem finish_shift : (l.shift k).finish = shifted k id l.finish :=
  (shifted_of_located fun _ => finish_located).symm

end Level

/-! ### Runs -/

/-- The state of reading `k` characters further on. -/
def Reading.shift (k : Nat) (r : Reading) : Reading :=
  ⟨r.level.shift k, r.outer.map (Prod.map id (Level.shift k))⟩

/-- What a phrase leads to `k` characters further on. -/
def Progress.shift (k : Nat) : Progress → Progress
  | .more r => .more (r.shift k)
  | .done f => .done f

namespace Reading

variable {limits : Limits} {r : Reading}

theorem closeValue_shift : (r.shift k).closeValue = shifted k (Progress.shift k) r.closeValue := by
  obtain ⟨l, outer⟩ := r
  unfold closeValue
  rw [show (shift k ⟨l, outer⟩).level = l.shift k from rfl, Level.finish_shift]
  refine shifted_bind ?_
  rintro f -
  cases outer <;> rfl

theorem step_shift (phrase : Phrase) :
    (r.shift k).step limits (phrase.shift k) =
      shifted k (Progress.shift k) (r.step limits phrase) := by
  obtain ⟨l, outer⟩ := r
  cases phrase with
  | operand f => rfl
  | openGroup negated =>
      simp only [Phrase.shift, step, shift, Level.openGroup_shift]
      exact shifted_bind fun _ _ => rfl
  | closeGroup position =>
      simp only [Phrase.shift, step, shift, Level.closeGroup_shift]
      exact shifted_bind fun _ _ => rfl
  | join j =>
      simp only [Phrase.shift, step, shift, Level.join_shift]
      exact shifted_bind fun _ _ => rfl
  | openValue path position =>
      have hopen : (shift k ⟨l, outer⟩).openValue limits path (position + k) =
          shifted k (shift k) (openValue ⟨l, outer⟩ limits path position) := by
        unfold openValue
        split
        · rename_i h
          rw [if_pos (show limits.maxDepth ≤ l.nesting from h)]
          rfl
        · rename_i h
          rw [if_neg (show ¬ limits.maxDepth ≤ l.nesting from h)]
          rfl
      simp only [Phrase.shift, step, hopen]
      exact shifted_bind fun _ _ => rfl
  | closeValue => exact closeValue_shift

theorem finish_shift : (r.shift k).finish = shifted k id r.finish := by
  obtain ⟨⟨bracket⟩, outer⟩ := r
  cases bracket with
  | none => exact Level.finish_shift
  | some position => rfl

/-- **A run further on in a text** does what it does otherwise, with its places as far on. -/
theorem run_shift (k : Nat) (r : Reading) (c : Cursor) :
    (r.shift k).run limits (c.shift k) =
      shifted k (Prod.map id (Cursor.shift k)) (r.run limits c) := by
  have hregion : (r.shift k).level.region = r.level.region := Level.region_shift
  have hphrase : Phrase.read (r.shift k).level.region (r.shift k).level.operandDue (c.shift k) =
      shifted k (Option.map (Prod.map (Phrase.shift k) (Cursor.shift k)))
        (Phrase.read r.level.region r.level.operandDue c) := by
    rw [hregion]
    exact Phrase.read_shift _ _ c
  cases hread : Phrase.read r.level.region r.level.operandDue c with
  | error e =>
      rw [hread] at hphrase
      rw [run_error hread, run_error hphrase]
      rfl
  | ok found =>
      rw [hread] at hphrase
      rcases found with _ | ⟨phrase, next⟩
      · -- the text ends, here and there
        have htoken := Phrase.read_eq_none_iff.mp hread
        rw [run_end htoken, run_end (Phrase.read_eq_none_iff.mp hphrase), finish_shift]
        exact shifted_bind fun f _ => by simp [Nat.add_right_comm]
      · have := Phrase.read_length hread
        rw [run_phrase hread, run_phrase hphrase, step_shift]
        refine shifted_bind ?_
        intro progress _
        cases progress with
        | more r' => exact run_shift k r' next
        | done f => rfl
termination_by c.rest.length

/-- The state in which the reading of a filter starts. -/
def start : Reading :=
  ⟨{ bracket := none, depth := 0 }, []⟩

/-- An empty text ends too early. -/
theorem run_start_nil (limits : Limits) (p : Nat) :
    start.run limits ⟨p, []⟩ = .error .unexpectedEndOfFilter :=
  run_end (Token.read_eq_none_iff.mpr (by simp))

end Reading

/-! ### Paths -/

namespace Path

/-- The piece `k` characters further on. -/
def Piece.shift (k : Nat) (piece : Piece) : Piece :=
  ⟨piece.name, piece.opens, piece.position + k, piece.next.shift k⟩

theorem Piece.read_shift (k : Nat) (c : Cursor) :
    Piece.read (c.shift k) = shifted k (Option.map (Piece.shift k)) (Piece.read c) := by
  obtain ⟨p, cs⟩ := c
  obtain ⟨w, s, rfl, hw, hs⟩ := Text.exists_run isNameChar cs
  rw [Cursor.shift_mk]
  cases s with
  | nil =>
      rw [List.append_nil, Piece.read_end hw, Piece.read_end hw]
      cases w with
      | nil => rfl
      | cons c w => simp [Piece.shift, Nat.add_right_comm]
  | cons d s =>
      rw [Piece.read_cons hw (hs d rfl), Piece.read_cons hw (hs d rfl)]
      split
      · simp [Piece.shift, Nat.add_right_comm]
      · split
        · split
          · rfl
          · simp [Piece.shift, Nat.add_right_comm]
        · simp [Error.shift, Nat.add_right_comm]

/-- The filter that a reader of value filters gives, and the place after it. -/
def Within.read (within : Within) (opened : Nat) (c : Cursor) : Except Error (Filter × Cursor) :=
  (fun found => (found.1, found.2.1)) <$> within opened c

/-- The reader of value filters does further on in a text what it does otherwise. -/
def Within.Moves (within : Within) : Prop :=
  ∀ (k opened : Nat) (c : Cursor), within.read (opened + k) (c.shift k) =
    shifted k (Prod.map id (Cursor.shift k)) (within.read opened c)

/-- What the reader of value filters does further on, by what it does otherwise. -/
theorem Within.Moves.cases {within : Within} (h : within.Moves) (k opened : Nat) (c : Cursor) :
    (∃ e, within opened c = .error e ∧ within (opened + k) (c.shift k) = .error (e.shift k)) ∨
      ∃ f next hnext hnext', within opened c = .ok (f, ⟨next, hnext⟩) ∧
        within (opened + k) (c.shift k) = .ok (f, ⟨next.shift k, hnext'⟩) := by
  have hmoves := h k opened c
  unfold Within.read at hmoves
  cases hread : within opened c with
  | error e =>
      rw [hread] at hmoves
      exact .inl ⟨e, rfl, Text.map_eq_error_iff.mp hmoves⟩
  | ok found =>
      obtain ⟨f, next, hnext⟩ := found
      rw [hread] at hmoves
      obtain ⟨⟨g, after, hafter⟩, hread', heq⟩ := Text.map_eq_ok_iff.mp hmoves
      cases heq
      exact .inr ⟨f, next, hnext, hafter, rfl, hread'⟩

/-- **A path further on in a text** is read as it is otherwise, if its value filters are. -/
theorem readFrom_shift {within : Within} (hwithin : within.Moves) (k : Nat) :
    ∀ (acc : Option Path) (due : Bool) (c : Cursor), readFrom within acc due (c.shift k) =
      shifted k (Prod.map id (Cursor.shift k)) (readFrom within acc due c)
  | acc, due, c => by
      have hpiece := Piece.read_shift k c
      cases hread : Piece.read c with
      | error e =>
          rw [hread] at hpiece
          rw [readFrom_of_error hread, readFrom_of_error hpiece]
          rfl
      | ok found =>
          rw [hread] at hpiece
          cases found with
          | none =>
              rw [readFrom_of_none hread, readFrom_of_none hpiece]
              rfl
          | some piece =>
              have hlength := Piece.read_length hread
              cases due with
              | true =>
                  rw [readFrom_due_some hread, readFrom_due_some hpiece, apply_ite (shifted k _)]
                  refine ite_congr rfl (fun _ => ?_) fun _ => rfl
                  exact readFrom_shift hwithin k acc false piece.next
              | false =>
                  -- both go on alike behind the piece: with an error, a value filter or a name
                  rw [readFrom_some hread, readFrom_some hpiece, apply_ite (shifted k _),
                    apply_ite (shifted k _), apply_ite (shifted k _)]
                  refine ite_congr rfl (fun _ => rfl) fun _ => ite_congr rfl (fun _ => ?_)
                    fun _ => ite_congr rfl (fun _ => ?_) fun _ => ?_
                  · dsimp only [Piece.shift]
                    split <;> rfl
                  · dsimp only [Piece.shift]
                    rcases hwithin.cases k piece.position piece.next with
                      ⟨e, herror, herror'⟩ | ⟨f, next, hnext, hnext', hok, hok'⟩
                    · rw [herror, herror']
                      rfl
                    · rw [hok, hok']
                      exact readFrom_shift hwithin k _ true next
                  · exact readFrom_shift hwithin k _ false piece.next
termination_by _ _ c => c.rest.length

end Path

theorem Filter.readWithin_moves (limits : Limits) : (Filter.readWithin limits).Moves := by
  intro k opened c
  unfold Path.Within.read
  rw [Filter.map_readWithin, Filter.map_readWithin]
  split
  · rfl
  · exact Reading.run_shift k ⟨{ bracket := some opened, depth := 1 }, []⟩ c

/-! ### Blanks around a text -/

namespace Text

variable {w : List Char}

theorem trimEnd_append_blanks (cs : List Char) (hw : ∀ c ∈ w, isBlank c = true) :
    trimEnd (cs ++ w) = trimEnd cs := by
  have hw' : ∀ c ∈ w.reverse, isBlank c = true := by simpa using hw
  rw [trimEnd, trimEnd, dropEnd, dropEnd, List.reverse_append, List.dropWhile_append_of_pos hw']

/-- Blanks in front stay, unless there is nothing but blanks. -/
theorem trimEnd_blanks_append (cs : List Char) (hw : ∀ c ∈ w, isBlank c = true) :
    trimEnd (w ++ cs) = if trimEnd cs = [] then [] else w ++ trimEnd cs := by
  have hw' : w.reverse.dropWhile isBlank = [] :=
    List.dropWhile_eq_nil_iff.mpr (by simpa using hw)
  simp only [trimEnd, dropEnd, List.reverse_append, List.dropWhile_append, List.isEmpty_iff,
    List.reverse_eq_nil_iff]
  split
  · rw [hw', List.reverse_nil]
  · rw [List.reverse_append, List.reverse_reverse]

end Text

section

variable {d : Nat} {cs w : List Char}

theorem openText_append_blanks (hw : ∀ c ∈ w, isBlank c = true) :
    openText { maxDepth := d } (cs ++ w) = openText { maxDepth := d } cs := by
  simp only [openText, Text.trimEnd_append_blanks cs hw]

/-- Blanks in front of a text move the place where reading starts, unless there is nothing but
blanks. -/
theorem openText_blanks_append (d : Nat) (cs : List Char) (hw : ∀ c ∈ w, isBlank c = true) :
    ∃ c, openText { maxDepth := d } cs = .ok c ∧
      (openText { maxDepth := d } (w ++ cs) = .ok (c.shift w.length) ∨
        c = ⟨0, []⟩ ∧ openText { maxDepth := d } (w ++ cs) = .ok c) := by
  refine ⟨_, rfl, ?_⟩
  simp only [openText, Text.trimEnd_blanks_append cs hw]
  split
  · rename_i hempty
    rw [hempty]
    exact .inr ⟨rfl, rfl⟩
  · refine .inl (congrArg Except.ok ?_)
    simp only [Cursor.skipWhile, Cursor.start, Cursor.shift, List.takeWhile_append_of_pos hw,
      List.dropWhile_append_of_pos hw, List.length_append]
    simp [Nat.add_comm]

/-- A reader that moves with its place is moved by the blanks in front of a text. -/
theorem read_blanks_append (d : Nat) (cs : List Char) {α : Type}
    {read : Cursor → Except Error (α × Cursor)}
    (hread : ∀ k c, read (c.shift k) = shifted k (Prod.map id (Cursor.shift k)) (read c))
    (hempty : ∀ k, shifted k id (read ⟨0, []⟩) = read ⟨0, []⟩)
    (hw : ∀ c ∈ w, isBlank c = true) :
    (openText { maxDepth := d } (w ++ cs) >>= read >>= fun found => pure found.1) =
      shifted w.length id
        (openText { maxDepth := d } cs >>= read >>= fun found => pure found.1) := by
  obtain ⟨c, hopen, hopen' | ⟨rfl, hopen'⟩⟩ := openText_blanks_append d cs hw
  · rw [hopen, hopen']
    show read (c.shift w.length) >>= _ = shifted w.length id (read c >>= _)
    rw [hread]
    exact shifted_bind fun _ _ => rfl
  · rw [hopen, hopen']
    show read ⟨0, []⟩ >>= _ = shifted w.length id (read ⟨0, []⟩ >>= _)
    conv_lhs => rw [← hempty w.length]
    exact shifted_bind fun _ _ => rfl

theorem parseFilterChars_append_blanks (hw : ∀ c ∈ w, isBlank c = true) :
    parseFilterChars { maxDepth := d } (cs ++ w) = parseFilterChars { maxDepth := d } cs := by
  simp only [parseFilterChars, openText_append_blanks hw]

theorem parsePathChars_append_blanks (hw : ∀ c ∈ w, isBlank c = true) :
    parsePathChars { maxDepth := d } (cs ++ w) = parsePathChars { maxDepth := d } cs := by
  simp only [parsePathChars, openText_append_blanks hw]

theorem parseFilterChars_blanks_append (hw : ∀ c ∈ w, isBlank c = true) :
    parseFilterChars { maxDepth := d } (w ++ cs) =
      shifted w.length id (parseFilterChars { maxDepth := d } cs) := by
  refine read_blanks_append d cs (fun k c => ?_) (fun k => ?_) hw
  · exact Reading.run_shift k .start c
  · show shifted k id (Reading.start.run _ _) = Reading.start.run _ _
    rw [Reading.run_start_nil]
    rfl

theorem parsePathChars_blanks_append (hw : ∀ c ∈ w, isBlank c = true) :
    parsePathChars { maxDepth := d } (w ++ cs) =
      shifted w.length id (parsePathChars { maxDepth := d } cs) := by
  refine read_blanks_append d cs (fun k c => ?_) (fun k => ?_) hw
  · exact Path.readFrom_shift (Filter.readWithin_moves _) k none false c
  · rw [Path.readFrom_of_none (Path.Piece.read_end (w := []) (by simp))]
    rfl

/-- **Blanks around a text only move its places.**  Blanks behind it make no difference; behind
`k` blanks the same filter or path is read, or the text is refused for the same reason, with its
place `k` characters further on. -/
theorem parse_surrounded (d : Nat) (text blanks : String)
    (h : ∀ c ∈ blanks.toList, isBlank c = true) :
    parseFilter { maxDepth := d } (text ++ blanks) = parseFilter { maxDepth := d } text ∧
    parseFilter { maxDepth := d } (blanks ++ text) =
      shifted blanks.length id (parseFilter { maxDepth := d } text) ∧
    parsePath { maxDepth := d } (text ++ blanks) = parsePath { maxDepth := d } text ∧
    parsePath { maxDepth := d } (blanks ++ text) =
      shifted blanks.length id (parsePath { maxDepth := d } text) := by
  simp only [parseFilter, parsePath, String.toList_append, ← String.length_toList]
  exact ⟨parseFilterChars_append_blanks h, parseFilterChars_blanks_append h,
    parsePathChars_append_blanks h, parsePathChars_blanks_append h⟩

/-- Three blanks around a text, one of them beyond ASCII: the place of the word moves, and not the
place inside the word. -/
theorem parse_surrounded_word :
    (∀ c ∈ "\u3000 \t".toList, isBlank c = true) ∧
    parseFilter { maxDepth := 64 } ("a pr or b..c pr" ++ "\u3000 \t") =
      .error (.invalidAttributePath 8 (.attributeNameExpected 2)) ∧
    parseFilter { maxDepth := 64 } ("\u3000 \t" ++ "a pr or b..c pr") =
      .error (.invalidAttributePath 11 (.attributeNameExpected 2)) ∧
    parsePath { maxDepth := 64 } ("a pr or b..c pr" ++ "\u3000 \t") =
      .error (.unexpectedCharacter ' ' 1 0) ∧
    parsePath { maxDepth := 64 } ("\u3000 \t" ++ "a pr or b..c pr") =
      .error (.unexpectedCharacter ' ' 4 3) := by
  have hblanks : ∀ c ∈ "\u3000 \t".toList, isBlank c = true :=
    List.all_eq_true.mp (by decide)
  have hfilter : parseFilter { maxDepth := 64 } "a pr or b..c pr" =
      .error (.invalidAttributePath 8 (.attributeNameExpected 2)) := by
    rw [← Text.refusal?_eq_some_iff]
    decide +kernel
  have hpath : parsePath { maxDepth := 64 } "a pr or b..c pr" =
      .error (.unexpectedCharacter ' ' 1 0) := by
    rw [← Text.refusal?_eq_some_iff]
    decide +kernel
  obtain ⟨hafter, hbefore, hafter', hbefore'⟩ := parse_surrounded 64 "a pr or b..c pr" _ hblanks
  refine ⟨hblanks, hafter.trans hfilter, ?_, hafter'.trans hpath, ?_⟩
  · rw [hbefore, hfilter]
    rfl
  · rw [hbefore', hpath]
    rfl

end

end ScimQuery
