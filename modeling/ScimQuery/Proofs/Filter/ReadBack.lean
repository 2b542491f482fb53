import ScimQuery.Proofs.Filter.Keywords
import ScimQuery.Proofs.Filter.Steps
import ScimQuery.Proofs.Filter.WellFormed
import ScimQuery.Proofs.Literal
import ScimQuery.Proofs.Path.Readable

/-!
# Filter — reading a canonical text

The canonical text of a filter shows the shape of the filter, and reading it follows that shape:
every node that joins, negates or narrows opens a group or a value filter, and every comparison
value is read from its own text.  `Filter.readBack` is the reading of the text by recursion on the
filter.  It fails where the limit on nesting is reached, or where a value is refused, and gives the
same filter with the values that are read otherwise.

* `run_chars`: a run in front of the text of a well-formed filter goes on behind it with the filter
  pushed that is read back, whatever is on the stacks and whatever follows.
* `run_joinedChars`: the texts of joined filters add one operand after the other to an open run.
* `Filter.read_chars`: reading the text of a well-formed filter from its start to its end.
-/

namespace ScimQuery

open Text (Cursor isKeyword)

/-! ### What is read back -/

/-- Fails where no more groups and value filters may be open. -/
def Limits.deepen (limits : Limits) (depth : Nat) : Except Error Unit :=
  if limits.maxDepth ≤ depth then .error (.nestingTooDeep limits.maxDepth) else .ok ()

/-- The value that is read from the text of a value, where this text starts at place `k`. -/
def Value.readBack (v : Value) (k : Nat) : Except Error Value :=
  Prod.fst <$> Phrase.readValue ⟨k, v.chars⟩

mutual

/-- The filter that is read from the text of a filter, where this text starts at place `k` and
`depth` groups and value filters are open. -/
def Filter.readBack (limits : Limits) : Filter → Nat → Nat → Except Error Filter
  | .compare op p v, _, k =>
      .compare op p <$> v.readBack (k + p.chars.length + 1 + op.keyword.toList.length + 1)
  | .present p, _, _ => pure (.present p)
  | .and fs, depth, k => do
      limits.deepen depth
      .and <$> Filter.readAllBack limits .and fs (depth + 1) (k + 1)
  | .or fs, depth, k => do
      limits.deepen depth
      .or <$> Filter.readAllBack limits .or fs (depth + 1) (k + 1)
  | .not f, depth, k => do
      limits.deepen depth
      .not <$> f.readBack limits (depth + 1) (k + "not(".toList.length)
  | .complex p f, depth, k => do
      limits.deepen depth
      .complex p <$> f.readBack limits (depth + 1) (k + p.chars.length + 1)

/-- The filters that are read from the texts of some filters, with the keyword of a junction
between them. -/
def Filter.readAllBack (limits : Limits) (j : Junction) :
    List Filter → Nat → Nat → Except Error (List Filter)
  | [], _, _ => pure []
  | f :: fs, depth, k => do
      let g ← f.readBack limits depth k
      let gs ← Filter.readAllBack limits j fs depth
        (k + f.chars.length + 1 + j.keyword.toList.length + 1)
      return g :: gs

end

theorem Filter.readBack_join (limits : Limits) (j : Junction) (fs : List Filter) (depth k : Nat) :
    (Filter.join j fs).readBack limits depth k =
      limits.deepen depth >>= fun _ =>
        Filter.join j <$> Filter.readAllBack limits j fs (depth + 1) (k + 1) := by
  cases j with
  | and =>
      rw [Filter.join, Filter.readBack]
      rfl
  | or =>
      rw [Filter.join, Filter.readBack]
      rfl

theorem Filter.chars_join (j : Junction) (fs : List Filter) :
    (Filter.join j fs).chars = '(' :: (Filter.joinedChars j fs ++ [')']) := by
  cases j with
  | and => exact Filter.chars_and fs
  | or => exact Filter.chars_or fs

theorem Filter.length_of_readAllBack {limits : Limits} {j : Junction} {depth : Nat} :
    ∀ {fs gs : List Filter} {k : Nat}, Filter.readAllBack limits j fs depth k = .ok gs →
      gs.length = fs.length
  | [], gs, k, h => by
      cases h
      rfl
  | f :: fs, gs, k, h => by
      rw [Filter.readAllBack] at h
      obtain ⟨g, -, h⟩ := Text.bind_eq_ok_iff.mp h
      obtain ⟨more, hmore, h⟩ := Text.bind_eq_ok_iff.mp h
      cases h
      rw [List.length_cons, List.length_cons, Filter.length_of_readAllBack hmore]

/-! ### Conditions -/

theorem Phrase.readPath_chars {p : Path} (hp : p.WellFormed) (k : Nat) :
    Phrase.readPath p.chars k = .ok p := by
  rw [Phrase.readPath, Path.ofWord_chars hp]

/-- The text of a value in front of a closing character, and the space after it. -/
theorem Phrase.readValue_chars (v : Value) {tail : List Char}
    (htail : ∀ d ∈ tail.head?, Literal.isEnd d = true) (k : Nat) :
    Phrase.readValue ⟨k, v.chars ++ tail⟩ =
      (fun v' => (v', Cursor.pastSpace ⟨k + v.chars.length, tail⟩)) <$> v.readBack k := by
  unfold Value.readBack Phrase.readValue
  simp only [Literal.scan_append_chars v htail]
  cases Literal.scan v.chars with
  | error fault => rfl
  | ok found =>
      cases found with
      | none => rfl
      | some l =>
          simp only [Except.map, Option.map, Literal.upTo, Cursor.skip_pastSpace]
          rfl

theorem Phrase.readCondition_present {region : Region} {p : Path} (hp : p.WellFormed)
    {tail : List Char} (htail : Closes region tail) (m k : Nat) :
    Phrase.readCondition region p.chars m ⟨k, Operator.presentKeyword.toList ++ tail⟩ =
      .ok (.present p,
        Cursor.pastSpace ⟨k + Operator.presentKeyword.toList.length, tail⟩) := by
  obtain ⟨hne, hword⟩ := presentKeyword_word
  rw [Phrase.readCondition, Phrase.readPath_chars hp]
  simp only [Token.read_word k hne hword htail.ends]
  rw [if_pos (by decide)]

theorem Phrase.readCondition_compare {region : Region} (op : Operator) {p : Path} (v : Value)
    (hp : p.WellFormed) {tail : List Char} (htail : Closes region tail) (m k : Nat) :
    Phrase.readCondition region p.chars m
        ⟨k, op.keyword.toList ++ ' ' :: (v.chars ++ tail)⟩ =
      (fun v' => (.compare op p v',
          Cursor.pastSpace ⟨k + op.keyword.toList.length + 1 + v.chars.length, tail⟩)) <$>
        v.readBack (k + op.keyword.toList.length + 1) := by
  obtain ⟨hne, hword⟩ := op.keyword_word
  obtain ⟨hpr, hop⟩ := op.ofKeyword?_keyword
  rw [Phrase.readCondition, Phrase.readPath_chars hp]
  simp only [Token.read_spaced k hne hword, hpr, hop, Phrase.readValue_chars v htail.isEnd]
  cases v.readBack (k + op.keyword.toList.length + 1) <;> rfl

/-! ### Runs of one junction -/

theorem Filter.joined_of_two {fs : List Filter} (h : 2 ≤ fs.length) (j : Junction) :
    Filter.joined j fs = .join j fs := by
  match fs, h with
  | f :: g :: more, _ => rfl

/-- The open runs of a group in which no other junction has been read. -/
def Pending.run : Junction → List Filter → Pending
  | .and, fs => { terms := fs }
  | .or, fs => { alternatives := fs }

theorem Pending.join_run (j : Junction) (fs : List Filter) (f : Filter) :
    (Pending.run j fs).join f = .joined j (f :: fs).reverse := by
  cases j <;> rfl

theorem Level.join_run {l : Level} (hl : Opens l.marks) (j : Junction) (fs : List Filter)
    (f : Filter) :
    ((l.waiting (.run j fs)).push f).join j = .ok (l.waiting (.run j (f :: fs))) := by
  cases j with
  | and => rfl
  | or => exact Level.join_or hl

theorem Level.openGroup_deepen (l : Level) (limits : Limits) (negated : Bool) :
    l.openGroup limits negated = limits.deepen l.nesting >>= fun _ => .ok (l.opened negated) := by
  rw [Level.openGroup_eq, Limits.deepen]
  split <;> rfl

namespace Reading

variable {limits : Limits} {l : Level} {outer : List (Path × Level)} {k : Nat} {tail : List Char}

theorem openValue_deepen (path : Path) (m : Nat) :
    openValue ⟨l, outer⟩ limits path m =
      limits.deepen l.nesting >>= fun _ =>
        .ok ⟨{ bracket := some m, depth := l.nesting + 1 }, (path, l) :: outer⟩ := by
  rw [openValue, Limits.deepen]
  split <;> rfl

/-! ### Runs over the text of a filter -/

/-- One space more or less in front of a token makes no difference. -/
theorem run_pastSpace (r : Reading) (c : Cursor) : r.run limits c.pastSpace = r.run limits c := by
  have hphrase : Phrase.read r.level.region r.level.operandDue c.pastSpace =
      Phrase.read r.level.region r.level.operandDue c := by
    simp only [Phrase.read, Token.read_pastSpace]
  have hend : c.pastSpace.position + c.pastSpace.rest.length = c.position + c.rest.length := by
    unfold Cursor.pastSpace
    split
    · simp only [List.length_cons]
      omega
    · rfl
  cases hread : Phrase.read r.level.region r.level.operandDue c with
  | error e => rw [run_error hread, run_error (hphrase.trans hread)]
  | ok found =>
      cases found with
      | some next => rw [run_phrase hread, run_phrase (hphrase.trans hread)]
      | none =>
          have htoken : Token.read r.level.region c = .ok none := Phrase.read_eq_none_iff.mp hread
          rw [run_end htoken, run_end ((Token.read_pastSpace _ _).trans htoken), hend]

/-- A condition where an operand is due. -/
theorem run_condition {c next : Cursor} {w : List Char} (hdue : l.operandDue = true)
    (h : Token.read l.region c = .ok (some ⟨.word w, k, next⟩))
    (hnot : isKeyword w "not" = false) :
    run limits ⟨l, outer⟩ c =
      Phrase.readCondition l.region w k next >>= fun found =>
        run limits ⟨l.push found.1, outer⟩ found.2 := by
  cases hcondition : Phrase.readCondition l.region w k next with
  | error e =>
      have hoperand : Phrase.readOperand l.region (.word w) k next = .error e := by
        simp [Phrase.readOperand, hnot, hcondition]
      exact run_due_eq_error hdue h hoperand
  | ok found => exact run_operand hdue h hnot hcondition

/-- Reading a group from the reading of what is in it. -/
theorem run_group {negated : Bool} {body : List Char} {inner : Except Error Filter}
    (hbody : run limits ⟨l.opened negated, outer⟩ ⟨k, body ++ ')' :: tail⟩ =
      inner >>= fun g =>
        run limits ⟨(l.opened negated).push g, outer⟩ ⟨k + body.length, ')' :: tail⟩) :
    (l.openGroup limits negated >>= fun l' => run limits ⟨l', outer⟩ ⟨k, body ++ ')' :: tail⟩) =
      limits.deepen l.nesting >>= fun _ => inner >>= fun g =>
        run limits ⟨l.push (Level.grouped negated g), outer⟩ ⟨k + body.length + 1, tail⟩ := by
  have hclose (g : Filter) :
      run limits ⟨(l.opened negated).push g, outer⟩ ⟨k + body.length, ')' :: tail⟩ =
        run limits ⟨l.push (Level.grouped negated g), outer⟩ ⟨k + body.length + 1, tail⟩ := by
    have hparen : Token.read ((l.opened negated).push g).region ⟨k + body.length, ')' :: tail⟩ =
        .ok (some ⟨.closeParen, k + body.length, ⟨k + body.length + 1, tail⟩⟩) :=
      Token.read_of_lexes (.delimiter rfl)
    rw [run_closeGroup rfl hparen, Level.closeGroup_opened]
    rfl
  simp only [hclose] at hbody
  rw [Level.openGroup_deepen, bind_assoc]
  exact congrArg _ (funext fun _ => hbody)

/-- Reading a value filter from the reading of what is in it. -/
theorem run_value {path : Path} {body : List Char} {inner : Except Error Filter} {m : Nat}
    (hbody : run limits ⟨{ bracket := some m, depth := l.nesting + 1 }, (path, l) :: outer⟩
        ⟨k, body ++ ']' :: tail⟩ =
      inner >>= fun g =>
        run limits
          ⟨({ bracket := some m, depth := l.nesting + 1 } : Level).push g, (path, l) :: outer⟩
          ⟨k + body.length, ']' :: tail⟩) :
    (openValue ⟨l, outer⟩ limits path m >>= fun r => run limits r ⟨k, body ++ ']' :: tail⟩) =
      limits.deepen l.nesting >>= fun _ => inner >>= fun g =>
        run limits ⟨l.push (.complex path g), outer⟩ ⟨k + body.length + 1, tail⟩ := by
  -- the suspended level goes on with the value filter as its operand
  have hclose (g : Filter) :
      run limits
          ⟨({ bracket := some m, depth := l.nesting + 1 } : Level).push g, (path, l) :: outer⟩
          ⟨k + body.length, ']' :: tail⟩ =
        run limits ⟨l.push (.complex path g), outer⟩ ⟨k + body.length + 1, tail⟩ := by
    have hbracket : Token.read
        (({ bracket := some m, depth := l.nesting + 1 } : Level).push g).region
        ⟨k + body.length, ']' :: tail⟩ =
          .ok (some ⟨.closeBracket, k + body.length, ⟨k + body.length + 1, tail⟩⟩) :=
      Token.read_of_lexes (.delimiter rfl)
    rw [run_closeValue rfl hbracket]
    rfl
  simp only [hclose] at hbody
  rw [openValue_deepen, bind_assoc]
  exact congrArg _ (funext fun _ => hbody)

/-- Reading a junction after an operand of a group in which no other junction has been read. -/
theorem run_keyword (hl : Level.Opens l.marks) (j : Junction) (earlier : List Filter) (f : Filter)
    (k : Nat) (s : List Char) :
    run limits ⟨(l.waiting (.run j earlier)).push f, outer⟩
        ⟨k, ' ' :: (j.keyword.toList ++ ' ' :: s)⟩ =
      run limits ⟨l.waiting (.run j (f :: earlier)), outer⟩
        ⟨k + 1 + j.keyword.toList.length + 1, s⟩ := by
  obtain ⟨hne, hword⟩ := j.keyword_word
  have hread : Token.read l.region ⟨k, ' ' :: (j.keyword.toList ++ ' ' :: s)⟩ =
      .ok (some ⟨.word j.keyword.toList, k + 1, ⟨k + 1 + j.keyword.toList.length + 1, s⟩⟩) :=
    (Token.read_space l.region k _).trans (Token.read_spaced (k + 1) hne hword)
  have hkeyword : isKeyword j.keyword.toList j.keyword = true := beq_self_eq_true _
  rw [run_join (l := (l.waiting (.run j earlier)).push f) rfl hread hkeyword, Level.join_run hl]
  rfl

/-- Reading the end of a group in which no other junction has been read. -/
theorem run_closing (hl : l.Base) (j : Junction) (earlier : List Filter) (f : Filter) (k : Nat)
    (s : List Char) :
    run limits ⟨(l.waiting (.run j earlier)).push f, outer⟩ ⟨k, ')' :: s⟩ =
      run limits ⟨l.push (.joined j (earlier.reverse ++ [f])), outer⟩ ⟨k, ')' :: s⟩ := by
  have hread : Token.read l.region ⟨k, ')' :: s⟩ = .ok (some ⟨.closeParen, k, ⟨k + 1, s⟩⟩) :=
    Token.read_of_lexes (.delimiter rfl)
  have hstop : ∀ i, Stops l.region i ⟨k, ')' :: s⟩ := by
    intro i w m next h
    rw [hread] at h
    cases h
  rw [run_disjunction_settle hl hstop, Pending.join_run, List.reverse_cons]

/-- Reading a group of joined filters from the reading of these filters. -/
theorem run_joined {j : Junction} {fs : List Filter} (hdue : l.operandDue = true)
    (hlen : 2 ≤ fs.length)
    (hbody : run limits ⟨(l.opened false).waiting (.run j []), outer⟩
        ⟨k + 1, Filter.joinedChars j fs ++ ')' :: tail⟩ =
      Filter.readAllBack limits j fs (l.nesting + 1) (k + 1) >>= fun gs =>
        run limits ⟨(l.opened false).push (.joined j gs), outer⟩
          ⟨k + 1 + (Filter.joinedChars j fs).length, ')' :: tail⟩) :
    run limits ⟨l, outer⟩ ⟨k, (Filter.join j fs).chars ++ tail⟩ =
      (Filter.join j fs).readBack limits l.nesting k >>= fun g =>
        run limits ⟨l.push g, outer⟩ ⟨k + (Filter.join j fs).chars.length, tail⟩ := by
  have hempty : Pending.run j [] = {} := by cases j <;> rfl
  have hopened : (l.opened false).operandDue = true := hdue
  -- as many filters are read back, so that the joined one is of this junction
  have hbody' : run limits ⟨l.opened false, outer⟩
      ⟨k + 1, Filter.joinedChars j fs ++ ')' :: tail⟩ =
        (Filter.join j <$> Filter.readAllBack limits j fs (l.nesting + 1) (k + 1)) >>= fun g =>
          run limits ⟨(l.opened false).push g, outer⟩
            ⟨k + 1 + (Filter.joinedChars j fs).length, ')' :: tail⟩ := by
    rw [hempty, Level.waiting_empty hopened] at hbody
    rw [hbody, bind_map_left]
    cases hread : Filter.readAllBack limits j fs (l.nesting + 1) (k + 1) with
    | error e => rfl
    | ok gs =>
        have hjoined := Filter.joined_of_two (Filter.length_of_readAllBack hread ▸ hlen) j
        simp only [bind, Except.bind, hjoined]
  have hchars : (Filter.join j fs).chars ++ tail =
      '(' :: (Filter.joinedChars j fs ++ ')' :: tail) := by
    rw [Filter.chars_join]
    simp
  have hlength : k + (Filter.join j fs).chars.length =
      k + 1 + (Filter.joinedChars j fs).length + 1 := by
    rw [Filter.chars_join]
    simp only [List.length_cons, List.length_append, List.length_nil]
    omega
  have hparen : Token.read l.region ⟨k, '(' :: (Filter.joinedChars j fs ++ ')' :: tail)⟩ =
      .ok (some ⟨.openParen, k, ⟨k + 1, Filter.joinedChars j fs ++ ')' :: tail⟩⟩) :=
    Token.read_of_lexes (.delimiter rfl)
  rw [hchars, hlength, run_openGroup hdue hparen, run_group hbody', Filter.readBack_join]
  simp only [bind_assoc, bind_map_left]
  rfl

/-! ### One node -/

theorem run_compare {op : Operator} {p : Path} {v : Value} (hp : p.WellFormed)
    (hnot : isKeyword p.chars "not" = false) (hdue : l.operandDue = true)
    (htail : Closes l.region tail) :
    run limits ⟨l, outer⟩ ⟨k, (Filter.compare op p v).chars ++ tail⟩ =
      (Filter.compare op p v).readBack limits l.nesting k >>= fun g =>
        run limits ⟨l.push g, outer⟩ ⟨k + (Filter.compare op p v).chars.length, tail⟩ := by
  obtain ⟨hne, hword⟩ := hp.chars_word
  have hchars : (Filter.compare op p v).chars ++ tail =
      p.chars ++ ' ' :: (op.keyword.toList ++ ' ' :: (v.chars ++ tail)) := by
    rw [Filter.chars_compare]
    simp
  have hlength : k + (Filter.compare op p v).chars.length =
      k + p.chars.length + 1 + op.keyword.toList.length + 1 + v.chars.length := by
    rw [Filter.chars_compare]
    simp only [List.length_append, List.length_cons]
    omega
  rw [hchars, run_condition hdue (Token.read_spaced k hne hword) hnot,
    Phrase.readCondition_compare op v hp htail, hlength, Filter.readBack]
  simp only [bind_map_left, run_pastSpace]

theorem run_present {p : Path} (hp : p.WellFormed) (hnot : isKeyword p.chars "not" = false)
    (hdue : l.operandDue = true) (htail : Closes l.region tail) :
    run limits ⟨l, outer⟩ ⟨k, (Filter.present p).chars ++ tail⟩ =
      (Filter.present p).readBack limits l.nesting k >>= fun g =>
        run limits ⟨l.push g, outer⟩ ⟨k + (Filter.present p).chars.length, tail⟩ := by
  obtain ⟨hne, hword⟩ := hp.chars_word
  have hchars : (Filter.present p).chars ++ tail =
      p.chars ++ ' ' :: (Operator.presentKeyword.toList ++ tail) := by
    rw [Filter.chars_present]
    simp
  have hlength : k + (Filter.present p).chars.length =
      k + p.chars.length + 1 + Operator.presentKeyword.toList.length := by
    rw [Filter.chars_present]
    simp only [List.length_append, List.length_cons]
    omega
  have hcondition := Phrase.readCondition_present hp htail k (k + p.chars.length + 1)
  rw [hchars, run_operand hdue (Token.read_spaced k hne hword) hnot hcondition, run_pastSpace,
    hlength, Filter.readBack, pure_bind]

theorem run_not {f : Filter} (hdue : l.operandDue = true)
    (hbody : ∀ m, run limits ⟨l.opened true, outer⟩ ⟨m, f.chars ++ ')' :: tail⟩ =
      f.readBack limits (l.nesting + 1) m >>= fun g =>
        run limits ⟨(l.opened true).push g, outer⟩ ⟨m + f.chars.length, ')' :: tail⟩) :
    run limits ⟨l, outer⟩ ⟨k, (Filter.not f).chars ++ tail⟩ =
      (Filter.not f).readBack limits l.nesting k >>= fun g =>
        run limits ⟨l.push g, outer⟩ ⟨k + (Filter.not f).chars.length, tail⟩ := by
  obtain ⟨hne, hword⟩ := not_word
  have hopen : "not(".toList.length = "not".toList.length + 1 := by decide
  have hchars : (Filter.not f).chars ++ tail = "not".toList ++ '(' :: (f.chars ++ ')' :: tail) := by
    rw [Filter.chars_not]
    simp
  have hlength : k + (Filter.not f).chars.length =
      k + "not".toList.length + 1 + f.chars.length + 1 := by
    rw [Filter.chars_not, List.length_append, List.length_append, List.length_singleton]
    omega
  have hkeyword : Token.read l.region ⟨k, "not".toList ++ '(' :: (f.chars ++ ')' :: tail)⟩ =
      .ok (some ⟨.word "not".toList, k,
        ⟨k + "not".toList.length, '(' :: (f.chars ++ ')' :: tail)⟩⟩) :=
    Token.read_word k hne hword (by simp [Token.Ends, Token.ofDelimiter?])
  have hparen : Token.read l.region ⟨k + "not".toList.length, '(' :: (f.chars ++ ')' :: tail)⟩ =
      .ok (some ⟨.openParen, k + "not".toList.length,
        ⟨k + "not".toList.length + 1, f.chars ++ ')' :: tail⟩⟩) :=
    Token.read_of_lexes (.delimiter rfl)
  rw [hchars, run_openNegated hdue hkeyword (by decide) hparen, hlength, run_group (hbody _),
    Filter.readBack, hopen]
  simp only [bind_assoc, bind_map_left]
  rfl

theorem run_complex {p : Path} {f : Filter} (hp : p.WellFormed) (hdue : l.operandDue = true)
    (hbody : ∀ m, run limits ⟨{ bracket := some k, depth := l.nesting + 1 }, (p, l) :: outer⟩
        ⟨m, f.chars ++ ']' :: tail⟩ =
      f.readBack limits (l.nesting + 1) m >>= fun g =>
        run limits
          ⟨({ bracket := some k, depth := l.nesting + 1 } : Level).push g, (p, l) :: outer⟩
          ⟨m + f.chars.length, ']' :: tail⟩) :
    run limits ⟨l, outer⟩ ⟨k, (Filter.complex p f).chars ++ tail⟩ =
      (Filter.complex p f).readBack limits l.nesting k >>= fun g =>
        run limits ⟨l.push g, outer⟩ ⟨k + (Filter.complex p f).chars.length, tail⟩ := by
  obtain ⟨hne, hword⟩ := hp.chars_word
  have hchars : (Filter.complex p f).chars ++ tail =
      p.chars ++ '[' :: (f.chars ++ ']' :: tail) := by
    rw [Filter.chars_complex]
    simp
  have hlength : k + (Filter.complex p f).chars.length =
      k + p.chars.length + 1 + f.chars.length + 1 := by
    rw [Filter.chars_complex]
    simp only [List.length_append, List.length_cons, List.length_nil]
    omega
  have hopen : Token.read l.region ⟨k, p.chars ++ '[' :: (f.chars ++ ']' :: tail)⟩ =
      .ok (some ⟨.valuePath p.chars, k, ⟨k + p.chars.length + 1, f.chars ++ ']' :: tail⟩⟩) :=
    Token.read_of_lexes (.valuePath hword)
  rw [hchars, run_openValue hdue hopen hne (Path.ofWord_chars hp), hlength, run_value (hbody _),
    Filter.readBack]
  simp only [bind_assoc, bind_map_left]

/-! ### Whole filters -/

mutual

/-- **A run over the text of a filter** goes on behind it with the filter pushed that is read
back. -/
theorem run_chars : ∀ {f : Filter}, f.WellFormed → ∀ (l : Level) (outer : List (Path × Level))
    (k : Nat) (tail : List Char), l.operandDue = true → Closes l.region tail →
      run limits ⟨l, outer⟩ ⟨k, f.chars ++ tail⟩ =
        f.readBack limits l.nesting k >>= fun g =>
          run limits ⟨l.push g, outer⟩ ⟨k + f.chars.length, tail⟩
  -- the recursion is on the filter, and the run is in step with it
  | .compare op p v, .compare hp hnot, l, outer, k, tail, hdue, htail =>
      run_compare hp hnot hdue htail
  | .present p, .present hp hnot, l, outer, k, tail, hdue, htail =>
      run_present hp hnot hdue htail
  | .and fs, .and hlen hwf, l, outer, k, tail, hdue, _ =>
      run_joined hdue hlen (run_joinedChars .and fs (List.ne_nil_of_length_pos (by omega)) hwf
        (l.opened false) outer (k + 1) tail [] (Level.base_opened false))
  | .or fs, .or hlen hwf, l, outer, k, tail, hdue, _ =>
      run_joined hdue hlen (run_joinedChars .or fs (List.ne_nil_of_length_pos (by omega)) hwf
        (l.opened false) outer (k + 1) tail [] (Level.base_opened false))
  | .not f, .not hwf, l, outer, k, tail, hdue, _ =>
      run_not hdue fun m =>
        run_chars hwf (l.opened true) outer m (')' :: tail) hdue (by simp [Closes])
  | .complex p f, .complex hp hwf, l, outer, k, tail, hdue, _ =>
      run_complex hp hdue fun m =>
        run_chars hwf { bracket := some k, depth := l.nesting + 1 } ((p, l) :: outer) m
          (']' :: tail) rfl (by simp [Closes, Level.region])

theorem run_joinedChars (j : Junction) : ∀ (fs : List Filter), fs ≠ [] → (∀ f ∈ fs, f.WellFormed) →
    ∀ (l : Level) (outer : List (Path × Level)) (k : Nat) (tail : List Char)
    (earlier : List Filter), l.Base →
      run limits ⟨l.waiting (.run j earlier), outer⟩ ⟨k, Filter.joinedChars j fs ++ ')' :: tail⟩ =
        Filter.readAllBack limits j fs l.nesting k >>= fun gs =>
          run limits ⟨l.push (.joined j (earlier.reverse ++ gs)), outer⟩
            ⟨k + (Filter.joinedChars j fs).length, ')' :: tail⟩
  | [], hne, _, _, _, _, _, _, _ => absurd rfl hne
  | [f], hne, hwf, l, outer, k, tail, earlier, hl => by
      have hf := run_chars (hwf f (by simp)) (l.waiting (.run j earlier)) outer k (')' :: tail) rfl
        (by simp [Closes])
      have hjoined : Filter.joinedChars j [f] = f.chars := rfl
      rw [hjoined, hf, Level.nesting_waiting, Filter.readAllBack]
      simp only [run_closing hl, Filter.readAllBack, pure_bind, bind_assoc]
  | f :: g :: more, hne, hwf, l, outer, k, tail, earlier, hl => by
      have hrest : Filter.joinedChars j (f :: g :: more) ++ ')' :: tail =
          f.chars ++ ' ' :: (j.keyword.toList ++
            ' ' :: (Filter.joinedChars j (g :: more) ++ ')' :: tail)) := by
        rw [Filter.joinedChars_cons_cons]
        simp
      have hlength : k + (Filter.joinedChars j (f :: g :: more)).length =
          k + f.chars.length + 1 + j.keyword.toList.length + 1 +
            (Filter.joinedChars j (g :: more)).length := by
        rw [Filter.joinedChars_cons_cons]
        simp only [List.length_append, List.length_cons]
        omega
      have hf := run_chars (hwf f (by simp)) (l.waiting (.run j earlier)) outer k
        (' ' :: (j.keyword.toList ++ ' ' :: (Filter.joinedChars j (g :: more) ++ ')' :: tail)))
        rfl (by simp [Closes])
      have hmore (f' : Filter) := run_joinedChars j (g :: more) (by simp)
        (fun h hh => hwf h (by simp [hh])) l outer
        (k + f.chars.length + 1 + j.keyword.toList.length + 1) tail (f' :: earlier) hl
      rw [hrest, hf, Level.nesting_waiting, hlength, Filter.readAllBack]
      simp only [run_keyword hl.opens, hmore, bind_assoc, pure_bind, List.reverse_cons,
        List.append_assoc, List.singleton_append]

end

end Reading

/-! ### Whole texts -/

/-- Reading the text of a filter from its start to its end. -/
theorem Filter.read_chars {f : Filter} (hwf : f.WellFormed) (limits : Limits) :
    Filter.read limits ⟨0, f.chars⟩ =
      (fun g => (g, ⟨f.chars.length, []⟩)) <$> f.readBack limits 0 0 := by
  have hrun := @Reading.run_chars limits f hwf { bracket := none, depth := 0 } [] 0 []
    rfl (by simp [Closes])
  have hend (g : Filter) :
      Reading.run limits ⟨({ bracket := none, depth := 0 } : Level).push g, []⟩
        ⟨f.chars.length, []⟩ = .ok (g, ⟨f.chars.length, []⟩) :=
    Reading.run_end (Token.read_eq_none_iff.mpr (by simp))
  simp only [List.append_nil, Nat.zero_add, hend, Level.nesting] at hrun
  rw [Filter.read, hrun, map_eq_pure_bind]
  rfl

end ScimQuery
