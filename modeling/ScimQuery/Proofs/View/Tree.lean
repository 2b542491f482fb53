import Mathlib.Data.List.Forall2
import ScimQuery.Proofs.Filter.RoundTrip
import ScimQuery.Proofs.View.Colours
import ScimQuery.View.Tree

/-!
# View — the tree is a picture of the filter

The text tree of a filter that has been read has a line for each node, and the filter without
binary64 numbers can be told from it (`Filter.tree_of_parse`).

* `View.splitOn_joinLines`: the lines can be told from the text, since no line has a line feed; no
  line has any control character (`View.headline_printed`), so that none has a colour of its own.
* `Filter.ofLine_headline`: a node is told by its line and the nodes right below it.  It takes both:
  the line `complex pr` stands for a value filter and for the test of an attribute `complex`.
* `Filter.eq_of_outlineOf`: filters are told by the lines of their nodes and the depths of these.
  The induction is on the number of lines; the lines below a node end where one is no deeper.
-/

namespace ScimQuery

open View

/-! ### Lines of a text -/

namespace View

variable {lines lines' : List (List Char)}

/-- **The lines of a text** are those that were joined. -/
theorem splitOn_joinLines (hne : lines ≠ []) (h : ∀ line ∈ lines, '\n' ∉ line) :
    (joinLines lines).splitOn '\n' = lines := by
  fun_induction joinLines lines with
  | case1 => exact absurd rfl hne
  | case2 line => exact List.splitOn_eq_singleton (h line List.mem_cons_self)
  | case3 line next more ih =>
      obtain ⟨hline, hmore⟩ := List.forall_mem_cons.mp h
      rw [List.splitOn_append_cons_self_of_not_mem hline, ih (List.cons_ne_nil _ _) hmore]

theorem shows_joinLines (h : List.Forall₂ Shows lines lines') :
    Shows (joinLines lines) (joinLines lines') := by
  induction h with
  | nil => exact fun _ => rfl
  | cons hline hmore ih =>
      cases hmore with
      | nil => exact hline
      | cons hnext hrest => exact hline.append (ih.cons (by decide))

/-- How deep a line is indented, and the line itself. -/
def unindent (line : List Char) : Nat × List Char :=
  ((line.takeWhile (· == ' ')).length / 2, line.dropWhile (· == ' '))

theorem unindent_indent (d : Nat) {line : List Char} (h : ' ' ∉ line.head?) :
    unindent (indent d line) = (d, line) := by
  have hspaces : ∀ c ∈ List.replicate (2 * d) ' ', (c == ' ') = true := by simp
  have hline : ∀ c ∈ line.head?, (c == ' ') = false := by
    intro c hc
    rw [beq_eq_false_iff_ne]
    rintro rfl
    exact h hc
  rw [unindent, indent, Text.takeWhile_run hspaces hline, Text.dropWhile_run hspaces hline,
    List.length_replicate, Nat.mul_div_cancel_left d (by decide)]

end View

/-! ### Control characters -/

/-- No character is a control character. -/
def Text.Printed (cs : List Char) : Prop :=
  ∀ c ∈ cs, 0x20 ≤ c.toNat

namespace Text.Printed

variable {cs ds : List Char}

instance (cs : List Char) : Decidable (Printed cs) :=
  decidable_of_iff (cs.all (0x20 ≤ ·.toNat) = true) (by simp [Printed])

theorem append (h : Printed cs) (h' : Printed ds) : Printed (cs ++ ds) := by
  intro c hc
  exact (List.mem_append.mp hc).elim (h c) (h' c)

theorem cons {c : Char} (hc : 0x20 ≤ c.toNat) (h : Printed cs) : Printed (c :: cs) :=
  List.forall_mem_cons.mpr ⟨hc, h⟩

theorem not_mem {c : Char} (h : Printed cs) (hc : c.toNat < 0x20) : c ∉ cs :=
  fun hmem => Nat.not_lt.mpr (h c hmem) hc

/-- The characters of words are no control characters. -/
theorem of_word (h : ∀ c ∈ cs, isWordChar c = true) : Printed cs := by
  have hnone : ∀ n < 0x20, isWordChar (Char.ofNat n) = false := by decide +kernel
  intro c hc
  by_contra hlow
  have := hnone c.toNat (Nat.lt_of_not_le hlow)
  rw [Char.ofNat_toNat, h c hc] at this
  cases this

end Text.Printed

open Text (Printed)

/-- The characters of numbers are no control characters. -/
theorem Json.printed_numeral {cs : List Char} (h : ∀ c ∈ cs, isNumeralChar c = true) :
    Printed cs := by
  intro c hc
  have hnumeral := h c hc
  unfold isNumeralChar at hnumeral
  simp only [Bool.or_eq_true, beq_iff_eq] at hnumeral
  rcases hnumeral with (((hdigit | rfl) | rfl) | rfl) | rfl
  · have hrange : '0' ≤ c ∧ c ≤ '9' := by simpa [isDigit] using hdigit
    have hlow : 48 ≤ c.toNat := UInt32.le_iff_toNat_le.mp hrange.1
    omega
  all_goals decide

/-- A string has its control characters escaped. -/
theorem Json.printed_escape (c : Char) : Printed (escape c) := by
  have hdigit : ∀ n < 16, 0x20 ≤ (hexDigit n).toNat := by decide
  unfold escape
  split_ifs with _ _ _ _ _ _ _ hlow
  any_goals decide
  · have hfirst := hdigit (c.toNat / 16) (Nat.div_lt_of_lt_mul (Nat.lt_trans hlow (by decide)))
    have hsecond := hdigit (c.toNat % 16) (Nat.mod_lt _ (by decide))
    intro d hd
    simp only [List.mem_cons, List.not_mem_nil, or_false] at hd
    rcases hd with rfl | rfl | rfl | rfl | rfl | rfl
    any_goals decide
    · exact hfirst
    · exact hsecond
  · exact .cons (Nat.le_of_not_lt hlow) (by decide)

theorem Value.printed_chars (v : Value) : Printed v.chars := by
  cases v with
  | null => decide
  | bool b => cases b <;> decide
  | string s =>
      rw [Literal.string_chars]
      refine .cons (by decide) (.append ?_ (by decide))
      intro c hc
      obtain ⟨d, -, hd⟩ := List.mem_flatMap.mp hc
      exact Json.printed_escape d c hd
  | number n =>
      cases n with
      | double d =>
          rw [Literal.double_chars]
          exact Json.printed_numeral fun _ => Number.Double.isNumeralChar_of_mem
      | whole w =>
          rw [Literal.whole_chars]
          exact Json.printed_numeral fun _ hc =>
            Json.isNumeralChar_of_integer (Json.mem_intChars hc)

theorem Path.WellFormed.printed_chars {p : Path} (h : p.WellFormed) : Printed p.chars :=
  .of_word h.chars_word.2

theorem Path.WellFormed.space_not_mem {p : Path} (h : p.WellFormed) : ' ' ∉ p.chars := by
  intro hmem
  have := h.chars_word.2 ' ' hmem
  rw [Text.isWordChar_eq_false (by simp)] at this
  cases this

/-! ### The line of a node -/

section

variable {f : Filter} {colours : Bool}

theorem View.headline_printed (h : f.WellFormed) : Printed (headline false f) := by
  cases h with
  | @compare op p v hp =>
      exact hp.printed_chars.append
        (.cons (by decide) ((Printed.of_word op.keyword_word.2).append (.cons (by decide) v.printed_chars)))
  | present hp => exact hp.printed_chars.append (by decide)
  | and => exact (by decide : Printed "and".toList)
  | or => exact (by decide : Printed "or".toList)
  | not => exact (by decide : Printed "not".toList)
  | complex hp =>
      exact .append (by decide : Printed "complex".toList) (.cons (by decide) hp.printed_chars)

/-- No line of a node starts with a space. -/
theorem View.headline_head (h : f.WellFormed) :
    headline false f ≠ [] ∧ ' ' ∉ (headline false f).head? := by
  have hpath {p : Path} (hp : p.WellFormed) (cs : List Char) :
      p.chars ++ cs ≠ [] ∧ ' ' ∉ (p.chars ++ cs).head? := by
    obtain ⟨hne, -⟩ := hp.chars_word
    refine ⟨by simp [hne], ?_⟩
    rw [List.head?_append_of_ne_nil _ hne]
    exact fun hspace => hp.space_not_mem (List.mem_of_head? hspace)
  cases h with
  | compare hp => exact hpath hp _
  | present hp => exact hpath hp _
  | and => exact (by decide : "and".toList ≠ [] ∧ ' ' ∉ "and".toList.head?)
  | or => exact (by decide : "or".toList ≠ [] ∧ ' ' ∉ "or".toList.head?)
  | not => exact (by decide : "not".toList ≠ [] ∧ ' ' ∉ "not".toList.head?)
  | complex hp => exact ⟨List.cons_ne_nil _ _, nofun⟩

/-- Without its colours, the line of a node is the plain one. -/
theorem View.shows_headline (h : f.WellFormed) : Shows (headline true f) (headline false f) := by
  have hplain {cs : List Char} (hcs : Printed cs) : Shows cs cs :=
    shows_plain (hcs.not_mem (by decide))
  have hkeyword {word : String} (hword : Printed word.toList) :
      Shows (keyword true word) word.toList :=
    shows_paint true .cyan (hword.not_mem (by decide))
  cases h with
  | @compare op p v hp =>
      exact (hplain hp.printed_chars).append
        (((hkeyword (Printed.of_word op.keyword_word.2)).append
          ((hplain v.printed_chars).cons (by decide))).cons (by decide))
  | present hp =>
      exact (hplain hp.printed_chars).append ((hkeyword (by decide)).cons (by decide))
  | and => exact hkeyword (by decide)
  | or => exact hkeyword (by decide)
  | not => exact hkeyword (by decide)
  | complex hp =>
      exact (hkeyword (by decide)).append ((hplain hp.printed_chars).cons (by decide))

end

/-! ### Nodes and the nodes below them -/

namespace Filter

/-- The filters of which a filter is put together. -/
def parts : Filter → List Filter
  | .compare _ _ _ => []
  | .present _ => []
  | .and fs => fs
  | .or fs => fs
  | .not f => [f]
  | .complex _ f => [f]

theorem nodesAt_eq (d : Nat) (f : Filter) :
    f.nodesAt d = (d, f) :: nodesOf (d + 1) f.parts := by
  cases f with
  | not f => exact congrArg _ (List.append_nil _).symm
  | complex path f => exact congrArg _ (List.append_nil _).symm
  | _ => rfl

theorem nodesOf_cons (d : Nat) (f : Filter) (fs : List Filter) :
    nodesOf d (f :: fs) = (d, f) :: (nodesOf (d + 1) f.parts ++ nodesOf d fs) := by
  rw [nodesOf, nodesAt_eq, List.cons_append]

/-- A filter as reading gives it, without binary64 numbers. -/
structure Plain (f : Filter) : Prop where
  wellFormed : f.WellFormed
  doubleFree : f.DoubleFree

theorem WellFormed.parts {f : Filter} (h : f.WellFormed) : ∀ g ∈ f.parts, g.WellFormed := by
  cases h with
  | compare => exact nofun
  | present => exact nofun
  | and _ hfs => exact hfs
  | or _ hfs => exact hfs
  | not hf => exact List.forall_mem_singleton.mpr hf
  | complex _ hf => exact List.forall_mem_singleton.mpr hf

theorem DoubleFree.parts {f : Filter} (h : f.DoubleFree) : ∀ g ∈ f.parts, g.DoubleFree := by
  cases h with
  | compare => exact nofun
  | present => exact nofun
  | and hfs => exact hfs
  | or hfs => exact hfs
  | not hf => exact List.forall_mem_singleton.mpr hf
  | complex hf => exact List.forall_mem_singleton.mpr hf

theorem Plain.parts {f : Filter} (h : f.Plain) : ∀ g ∈ f.parts, g.Plain :=
  fun g hg => ⟨h.wellFormed.parts g hg, h.doubleFree.parts g hg⟩

/-- Every node of well-formed filters is well-formed. -/
theorem wellFormed_of_mem_nodesOf : ∀ {d : Nat} {fs : List Filter}, (∀ f ∈ fs, f.WellFormed) →
    ∀ node ∈ nodesOf d fs, node.2.WellFormed
  | _, [], _ => nofun
  | _, f :: fs, hfs => by
      obtain ⟨hf, hfs⟩ := List.forall_mem_cons.mp hfs
      rw [nodesOf_cons, List.forall_mem_cons, List.forall_mem_append]
      exact ⟨hf, wellFormed_of_mem_nodesOf hf.parts, wellFormed_of_mem_nodesOf hfs⟩
termination_by d fs => (nodesOf d fs).length
decreasing_by all_goals rw [nodesOf_cons, List.length_cons, List.length_append]; omega

theorem nodes_eq_nodesOf (f : Filter) : f.nodes = nodesOf 0 [f] :=
  (List.append_nil _).symm

theorem WellFormed.nodes {f : Filter} (h : f.WellFormed) : ∀ node ∈ f.nodes, node.2.WellFormed := by
  rw [nodes_eq_nodesOf]
  exact wellFormed_of_mem_nodesOf (List.forall_mem_singleton.mpr h)

/-! ### A node from its line -/

/-- A line in front of its first space, and behind it. -/
def splitLine (line : List Char) : List Char × List Char :=
  (line.takeWhile (· != ' '), (line.dropWhile (· != ' ')).drop 1)

theorem splitLine_append {w : List Char} (h : ' ' ∉ w) (cs : List Char) :
    splitLine (w ++ ' ' :: cs) = (w, cs) := by
  have hw : ∀ c ∈ w, (c != ' ') = true := by
    intro c hc
    rw [bne_iff_ne]
    rintro rfl
    exact h hc
  rw [splitLine, Text.takeWhile_run hw (by simp), Text.dropWhile_run hw (by simp)]
  rfl

/-- The condition of a line. -/
def conditionOfLine (line : List Char) : Option Filter := do
  let path ← (Path.ofWord (splitLine line).1).toOption
  if (splitLine line).2 = Operator.presentKeyword.toList then return .present path
  else
    let op ← Operator.ofKeyword? (splitLine (splitLine line).2).1
    match Literal.scan (splitLine (splitLine line).2).2 with
    | .ok (some l) => return .compare op path l.value
    | _ => none

/-- The node of a line, put together of the filters right below it. -/
def ofLine (line : List Char) : List Filter → Option Filter
  | [] => conditionOfLine line
  | [f] =>
      if line = "not".toList then some (.not f)
      else (fun path => .complex path f) <$> (Path.ofWord (splitLine line).2).toOption
  | fs => some (if line = Junction.and.keyword.toList then .and fs else .or fs)

/-- **A node is told by its line and the filters right below it.** -/
theorem Plain.ofLine_headline {f : Filter} (h : f.Plain) :
    ofLine (headline false f) f.parts = some f := by
  obtain ⟨hwf, hdf⟩ := h
  cases hwf with
  | @compare op p v hp =>
      have hv : ∀ d, v ≠ .number (.double d) := by
        cases hdf with
        | compare hv => exact hv
      have hspace : ' ' ∉ op.keyword.toList := by cases op <;> decide
      have hpresent : op.keyword.toList ++ ' ' :: v.chars ≠ Operator.presentKeyword.toList := by
        intro heq
        have hmem : ' ' ∈ Operator.presentKeyword.toList := heq ▸ by simp
        exact absurd hmem (by decide)
      have hscan := @Literal.scan_chars v hv [] (by simp)
      rw [List.append_nil] at hscan
      show conditionOfLine (p.chars ++ ' ' :: (op.keyword.toList ++ ' ' :: v.chars)) = _
      simp only [conditionOfLine, splitLine_append hp.space_not_mem, splitLine_append hspace,
        Path.ofWord_chars hp, if_neg hpresent, op.ofKeyword?_keyword.2, hscan]
      rfl
  | @present p hp =>
      show conditionOfLine (p.chars ++ ' ' :: Operator.presentKeyword.toList) = _
      simp only [conditionOfLine, splitLine_append hp.space_not_mem, Path.ofWord_chars hp]
      rfl
  | @and fs hlen =>
      obtain ⟨f, g, more, rfl⟩ : ∃ f g more, fs = f :: g :: more := by
        match fs, hlen with
        | f :: g :: more, _ => exact ⟨f, g, more, rfl⟩
      rfl
  | @or fs hlen =>
      obtain ⟨f, g, more, rfl⟩ : ∃ f g more, fs = f :: g :: more := by
        match fs, hlen with
        | f :: g :: more, _ => exact ⟨f, g, more, rfl⟩
      rfl
  | not => rfl
  | @complex p f hp =>
      have hspace : ' ' ∉ "complex".toList := by decide
      show ofLine ("complex".toList ++ ' ' :: p.chars) [f] = _
      rw [ofLine, splitLine_append hspace, Path.ofWord_chars hp]
      rfl

theorem Plain.eq_of_headline {f g : Filter} (hf : f.Plain) (hg : g.Plain)
    (hline : headline false f = headline false g) (hparts : f.parts = g.parts) : f = g := by
  refine Option.some.inj ?_
  rw [← hf.ofLine_headline, ← hg.ofLine_headline, hline, hparts]

/-! ### Filters from their lines -/

/-- The lines of some filters, each with its depth. -/
def outlineOf (d : Nat) (fs : List Filter) : List (Nat × List Char) :=
  (nodesOf d fs).map fun node => (node.1, headline false node.2)

theorem outlineOf_cons (d : Nat) (f : Filter) (fs : List Filter) :
    outlineOf d (f :: fs) =
      (d, headline false f) :: (outlineOf (d + 1) f.parts ++ outlineOf d fs) := by
  rw [outlineOf, nodesOf_cons, List.map_cons, List.map_append]
  rfl

/-- The first line behind filters is no deeper than they are. -/
theorem head_outlineOf {d n : Nat} {fs : List Filter} {rest : List (Nat × List Char)}
    (hn : d < n) (hrest : ∀ line ∈ rest.head?, line.1 < d) :
    ∀ line ∈ (outlineOf d fs ++ rest).head?, line.1 < n := by
  cases fs with
  | nil => exact fun line hline => Nat.lt_trans (hrest line hline) hn
  | cons f fs =>
      rw [outlineOf_cons]
      rintro _ ⟨⟩
      exact hn

/-- **Filters are told by their lines and the depths of these.** -/
theorem eq_of_outlineOf : ∀ {d : Nat} {fs gs : List Filter} {rest rest' : List (Nat × List Char)},
    (∀ f ∈ fs, f.Plain) → (∀ g ∈ gs, g.Plain) →
      (∀ line ∈ rest.head?, line.1 < d) → (∀ line ∈ rest'.head?, line.1 < d) →
        outlineOf d fs ++ rest = outlineOf d gs ++ rest' → fs = gs ∧ rest = rest'
  | _, [], [], _, _, _, _, _, _, h => ⟨rfl, h⟩
  | d, [], g :: gs, rest, rest', _, _, hrest, _, h => by
      rw [outlineOf_cons] at h
      obtain rfl : rest = _ := h
      exact absurd (hrest _ rfl) (Nat.lt_irrefl d)
  | d, f :: fs, [], rest, rest', _, _, _, hrest', h => by
      rw [outlineOf_cons] at h
      obtain rfl : _ = rest' := h
      exact absurd (hrest' _ rfl) (Nat.lt_irrefl d)
  | d, f :: fs, g :: gs, rest, rest', hfs, hgs, hrest, hrest', h => by
      obtain ⟨hf, hfs⟩ := List.forall_mem_cons.mp hfs
      obtain ⟨hg, hgs⟩ := List.forall_mem_cons.mp hgs
      rw [outlineOf_cons, outlineOf_cons, List.cons_append, List.cons_append, List.append_assoc,
        List.append_assoc] at h
      obtain ⟨hhead, htail⟩ := List.cons.inj h
      -- what is right below the first node ends where a line is no deeper than the node
      obtain ⟨hparts, hmore⟩ := eq_of_outlineOf hf.parts hg.parts
        (head_outlineOf (Nat.lt_add_one d) hrest) (head_outlineOf (Nat.lt_add_one d) hrest')
        htail
      obtain ⟨rfl, rfl⟩ := eq_of_outlineOf hfs hgs hrest hrest' hmore
      obtain rfl := hf.eq_of_headline hg (congrArg Prod.snd hhead) hparts
      exact ⟨rfl, rfl⟩
termination_by d fs => (outlineOf d fs).length
decreasing_by all_goals rw [outlineOf_cons, List.length_cons, List.length_append]; omega

/-! ### Trees -/

variable {f g : Filter}

theorem filterLines_eq (colours : Bool) (f : Filter) :
    filterLines colours 0 f = f.nodes.map fun node => indent node.1 (headline colours node.2) :=
  rfl

theorem nodes_ne_nil (f : Filter) : f.nodes ≠ [] := by
  rw [nodes, nodesAt_eq]
  exact List.cons_ne_nil _ _

theorem WellFormed.splitOn_tree (h : f.WellFormed) :
    (f.tree false).toList.splitOn '\n' = filterLines false 0 f := by
  rw [tree, String.toList_ofList, filterLines_eq]
  refine splitOn_joinLines (by simpa using f.nodes_ne_nil) ?_
  intro line hline
  obtain ⟨node, hnode, rfl⟩ := List.mem_map.mp hline
  have hspaces : Printed (List.replicate (2 * node.1) ' ') := by
    intro c hc
    rw [List.eq_of_mem_replicate hc]
    decide
  exact (hspaces.append (headline_printed (h.nodes node hnode))).not_mem (by decide)

theorem WellFormed.outlineOf_eq (h : f.WellFormed) :
    outlineOf 0 [f] = (filterLines false 0 f).map unindent := by
  rw [outlineOf, ← nodes_eq_nodesOf, filterLines_eq, List.map_map]
  refine List.map_congr_left ?_
  intro node hnode
  exact (unindent_indent node.1 (headline_head (h.nodes node hnode)).2).symm

theorem Plain.eq_of_tree (hf : f.Plain) (hg : g.Plain) (h : f.tree false = g.tree false) :
    f = g := by
  have hlines : filterLines false 0 f = filterLines false 0 g := by
    rw [← hf.wellFormed.splitOn_tree, ← hg.wellFormed.splitOn_tree, h]
  have houtline : outlineOf 0 [f] ++ [] = outlineOf 0 [g] ++ [] := by
    rw [hf.wellFormed.outlineOf_eq, hg.wellFormed.outlineOf_eq, hlines]
  obtain ⟨hone, -⟩ := eq_of_outlineOf (List.forall_mem_singleton.mpr hf)
    (List.forall_mem_singleton.mpr hg) (by simp) (by simp) houtline
  exact (List.cons.inj hone).1

theorem WellFormed.uncoloured_tree (h : f.WellFormed) :
    uncoloured (f.tree true).toList = (f.tree false).toList := by
  rw [tree, tree, String.toList_ofList, String.toList_ofList, filterLines_eq, filterLines_eq]
  refine (shows_joinLines ?_).uncoloured
  rw [List.forall₂_map_left_iff, List.forall₂_map_right_iff, List.forall₂_same]
  intro node hnode
  have hspaces : '\x1b' ∉ List.replicate (2 * node.1) ' ' := by simp [List.mem_replicate]
  exact (shows_plain hspaces).append (shows_headline (h.nodes node hnode))

end Filter

/-- **The text tree is a picture of the filter.**  Its lines are those of the nodes, in the order of
a walk, each two spaces in for each level and starting there.  Filters with the same tree are the
same, if they were read and have no binary64 numbers; and without its colours, the coloured tree is
the plain one. -/
theorem parseFilter_tree (limits : Limits) (text : String) (f : Filter)
    (h : parseFilter limits text = .ok f) (hdf : f.DoubleFree) :
    (f.tree false).toList.splitOn '\n' =
        (f.nodes.map fun node =>
          List.replicate (2 * node.1) ' ' ++ headline false node.2) ∧
      (∀ node ∈ f.nodes, headline false node.2 ≠ [] ∧ ' ' ∉ (headline false node.2).head?) ∧
      (∀ limits' text' g, parseFilter limits' text' = .ok g → g.DoubleFree →
        f.tree false = g.tree false → f = g) ∧
      uncoloured (f.tree true).toList = (f.tree false).toList := by
  have hwellFormed {limits : Limits} {text : String} {f : Filter}
      (h : parseFilter limits text = .ok f) : f.WellFormed := by
    obtain ⟨c, after, hread⟩ := exists_read_of_parseFilter h
    exact Filter.read_wellFormed hread
  have hwf := hwellFormed h
  refine ⟨hwf.splitOn_tree, ?_, ?_, hwf.uncoloured_tree⟩
  · intro node hnode
    exact headline_head (hwf.nodes node hnode)
  · intro limits' text' g hg hdg htree
    exact Filter.Plain.eq_of_tree ⟨hwf, hdf⟩ ⟨hwellFormed hg, hdg⟩ htree

/-- An attribute `complex` with a value and a value filter of it: two lines that start alike, which
what is below them tells apart.  A filter with the same tree is the same one. -/
theorem parseFilter_tree_complex :
    ∃ f g, parseFilter {} "complex pr and complex[pr eq \"\\n \"]" = .ok f ∧
      parseFilter {} "(complex PR) AND complex[ (pr EQ \"\\u000A\\u0020\") ]" = .ok g ∧
      (f.tree false).toList.splitOn '\n' =
        ["and", "  complex pr", "  complex complex", "    pr eq \"\\n \""].map String.toList ∧
      f.nodes.length = 4 ∧ f = g ∧ uncoloured (f.tree true).toList = (g.tree false).toList := by
  have hparse (text : String) (hall : (parseFilter {} text).toOption.map
      (fun f => (f.tree false, decide f.DoubleFree)) =
        some ("and\n  complex pr\n  complex complex\n    pr eq \"\\n \"", true)) :
      ∃ f, parseFilter {} text = .ok f ∧ f.DoubleFree ∧
        f.tree false = "and\n  complex pr\n  complex complex\n    pr eq \"\\n \"" := by
    obtain ⟨f, hf, hall⟩ := Option.map_eq_some_iff.mp hall
    obtain ⟨htree, hdf⟩ := Prod.mk.inj hall
    exact ⟨f, Text.toOption_eq_some_iff.mp hf, of_decide_eq_true hdf, htree⟩
  obtain ⟨f, hf, hdf, hftree⟩ := hparse "complex pr and complex[pr eq \"\\n \"]" (by decide +kernel)
  obtain ⟨g, hg, hdg, hgtree⟩ :=
    hparse "(complex PR) AND complex[ (pr EQ \"\\u000A\\u0020\") ]" (by decide +kernel)
  obtain ⟨hlines, -, hsame, hplain⟩ := parseFilter_tree {} _ f hf hdf
  obtain rfl : f = g := hsame {} _ g hg hdg (hftree.trans hgtree.symm)
  have hfour : (f.tree false).toList.splitOn '\n' =
      ["and", "  complex pr", "  complex complex", "    pr eq \"\\n \""].map String.toList := by
    rw [hftree]
    decide +kernel
  refine ⟨f, f, hf, hg, hfour, ?_, rfl, hplain⟩
  simpa [hfour] using (congrArg List.length hlines).symm

end ScimQuery
