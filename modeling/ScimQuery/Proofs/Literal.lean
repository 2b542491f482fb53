import ScimQuery.Literal
import ScimQuery.Proofs.Json.Reader
import ScimQuery.Proofs.Text.Runs

/-!
# Literal — what a comparison value takes up

A comparison value is found behind spaces, in the part of the text that is read as JSON
(`scan_run`, `judge`).  There its spelling is in front of a text that shows, if the spelling does
not, that the value has ended (`judge_eq_ok_iff`).  Where the part ends, what follows does not
count:

* `scan_chars`: the text of a value that is no binary64 number is read back as that value, at the
  end of the text and in front of a space or a closing character.
* `scan_append_chars`: in front of a closing character the text of any value is read, or refused, as
  it is by itself.
-/

namespace ScimQuery

open Json (isSpace isDigit readValue)

namespace Literal

/-! ### Spaces and closing characters -/

theorem isSpace_iff_mem {c : Char} : isSpace c = true ↔ c ∈ [' ', '\t', '\n', '\r'] := by
  simp only [isSpace, Bool.or_eq_true, beq_iff_eq, List.mem_cons, List.not_mem_nil, or_false]
  tauto

theorem isEnd_iff_mem {c : Char} : isEnd c = true ↔ c ∈ [' ', ')', ']'] := by
  simp [isEnd, or_assoc]

/-- A character of a number has no meaning of its own around a value. -/
theorem plain_of_isNumeralChar {c : Char} (h : Json.isNumeralChar c = true) :
    isSpace c = false ∧ isEnd c = false ∧ isDelimited c = false ∧ isBoundary c = false := by
  have hne : ∀ d ∈ [' ', '\n', '\t', '\r', ')', ']', '"', '[', '\x7b', '\x7d', ',', ':'], c ≠ d :=
    Json.ne_of_isNumeralChar h (by decide)
  simp only [List.forall_mem_cons] at hne
  simp [isSpace, isEnd, isDelimited, isBoundary, hne]

/-! ### What scanning finds -/

/-- The value that a text of JSON holds, and the characters of the text that it takes up. -/
def judge (text : List Char) : Except LiteralFault (Value × List Char) :=
  match decode text with
  | .error fault => .error (.json fault text)
  | .ok (v, spelling) =>
    if isDouble v && isInteger spelling then .error (.outOfRange spelling)
    else
      match Value.ofJson? v with
      | none => .error (.notScalar v)
      | some value => .ok (value, spelling)

/-- The text starts with a character that shows that a value in front of it has ended. -/
def Bounded (s : List Char) : Prop :=
  ∀ d ∈ s.head?, isBoundary d = true

/-- A value with the text `w` may end in front of `rest`: it shows its own end, or what is left
shows that it has ended. -/
def MayEnd (w rest : List Char) : Prop :=
  (∃ c ∈ w.head?, isDelimited c = true) ∨ Bounded rest

/-- Where a value is read, its end is looked for. -/
theorem decode_append {w rest : List Char} {v : Json} (h : readValue (w ++ rest) = .ok (v, rest)) :
    (MayEnd w rest → decode (w ++ rest) = .ok (v, w)) ∧
      (¬ MayEnd w rest → decode (w ++ rest) = .error (.on .trailingText rest)) := by
  have hlength := Json.readValue_length h
  obtain ⟨c, w, rfl⟩ : ∃ c cs, w = c :: cs := by
    refine List.exists_cons_of_ne_nil ?_
    rintro rfl
    exact absurd hlength (Nat.lt_irrefl _)
  have hspelling : (c :: w ++ rest).take ((c :: w ++ rest).length - rest.length) = c :: w := by
    rw [List.length_append, Nat.add_sub_cancel, List.take_left]
  rw [decode, h]
  dsimp only [List.cons_append, List.head?_cons] at hspelling ⊢
  rw [hspelling]
  cases rest with
  | nil => simp [MayEnd, Bounded]
  | cons d more =>
      have hend : MayEnd (c :: w) (d :: more) ↔ (isDelimited c || isBoundary d) = true := by
        simp [MayEnd, Bounded]
      rw [hend]
      exact ⟨fun h => if_pos h, fun h => if_neg h⟩

theorem readValue_of_decode {text spelling : List Char} {v : Json}
    (h : decode text = .ok (v, spelling)) : ∃ rest, readValue text = .ok (v, rest) := by
  unfold decode at h
  split at h
  · cases h
  rename_i v' rest hread
  refine ⟨rest, ?_⟩
  dsimp only at h
  split at h
  · split at h
    · cases h
      exact hread
    · cases h
  · cases h
    exact hread

/-- **What a text of JSON is judged to hold**: the value that is read, if it may end where it does,
and no whole number was rounded. -/
theorem judge_eq_ok_iff {text spelling : List Char} {value : Value} :
    judge text = .ok (value, spelling) ↔
      ∃ rest, text = spelling ++ rest ∧ readValue text = .ok (value.toJson, rest) ∧
        MayEnd spelling rest ∧ (isDouble value.toJson && isInteger spelling) = false := by
  constructor
  · intro h
    unfold judge at h
    split at h
    · cases h
    rename_i v spelling' hdecode
    split at h
    · cases h
    rename_i hrange
    split at h
    · cases h
    rename_i hvalue
    cases h
    obtain rfl := Value.ofJson?_eq_some_iff.mp hvalue
    obtain ⟨rest, hread⟩ := readValue_of_decode hdecode
    obtain ⟨w, rfl⟩ := (Json.readValue_scalar.mp hread).suffix
    by_cases hend : MayEnd w rest
    · rw [(decode_append hread).1 hend] at hdecode
      cases hdecode
      exact ⟨rest, rfl, hread, hend, by simpa using hrange⟩
    · rw [(decode_append hread).2 hend] at hdecode
      cases hdecode
  · rintro ⟨rest, rfl, hread, hend, hrange⟩
    rw [judge, (decode_append hread).1 hend]
    simp [hrange]

/-- An empty text holds no value. -/
theorem ne_nil_of_judge {text spelling : List Char} {value : Value}
    (h : judge text = .ok (value, spelling)) : text ≠ [] := by
  rintro rfl
  obtain ⟨rest, -, hread, -⟩ := judge_eq_ok_iff.mp h
  cases hread

section

variable {w cs : List Char} {c : Char}

/-- Scanning takes its value from the part of the text that is read as JSON. -/
theorem scan_run (hw : ∀ d ∈ w, isSpace d = true) (hc : isSpace c = false)
    (hne : extent (c :: cs) ≠ []) :
    scan (w ++ c :: cs) =
      (judge (extent (c :: cs))).map fun found =>
        some (scan.found (w ++ c :: cs) found.1 found.2) := by
  have hbody : (w ++ c :: cs).dropWhile isSpace = c :: cs :=
    Text.dropWhile_run hw (by simpa using hc)
  unfold scan judge
  simp only [hbody]
  split
  · rename_i h
    cases h
  · rename_i htext
    exact absurd htext hne
  · cases decode (extent (c :: cs)) with
    | error fault => rfl
    | ok found =>
        obtain ⟨v, spelling⟩ := found
        dsimp only
        by_cases hrange : (isDouble v && isInteger spelling) = true
        · rw [if_pos hrange, if_pos hrange]
          rfl
        · rw [if_neg hrange, if_neg hrange]
          cases Value.ofJson? v <;> rfl

/-- Where there is no such part, a closing character stands in the place of the value. -/
theorem scan_missing (hw : ∀ d ∈ w, isSpace d = true) (hc : isSpace c = false)
    (hnone : extent (c :: cs) = []) : scan (w ++ c :: cs) = .error (.missing c) := by
  have hbody : (w ++ c :: cs).dropWhile isSpace = c :: cs :=
    Text.dropWhile_run hw (by simpa using hc)
  unfold scan
  simp only [hbody, hnone]

theorem scan_eq_ok_iff (hw : ∀ d ∈ w, isSpace d = true) (hc : isSpace c = false) {l : Literal} :
    scan (w ++ c :: cs) = .ok (some l) ↔
      ∃ value spelling, judge (extent (c :: cs)) = .ok (value, spelling) ∧
        l = scan.found (w ++ c :: cs) value spelling := by
  constructor
  · intro h
    by_cases hnone : extent (c :: cs) = []
    · rw [scan_missing hw hc hnone] at h
      cases h
    · rw [scan_run hw hc hnone] at h
      cases hjudge : judge (extent (c :: cs)) with
      | error fault =>
          rw [hjudge] at h
          cases h
      | ok found =>
          rw [hjudge] at h
          cases h
          exact ⟨_, _, rfl, rfl⟩
  · rintro ⟨value, spelling, hjudge, rfl⟩
    rw [scan_run hw hc (ne_nil_of_judge hjudge), hjudge]
    rfl

end

/-- Where a value is found or refused, there is more than spaces. -/
theorem exists_of_scan {s : List Char} (h : scan s ≠ .ok none) :
    ∃ w c cs, s = w ++ c :: cs ∧ (∀ d ∈ w, isSpace d = true) ∧ isSpace c = false := by
  obtain ⟨w, body, rfl, hw, hbody⟩ := Text.exists_run isSpace s
  cases body with
  | cons c cs => exact ⟨w, c, cs, rfl, hw, hbody c rfl⟩
  | nil =>
      have hempty : (w ++ []).dropWhile isSpace = [] := Text.dropWhile_run hw (by simp)
      refine absurd ?_ h
      unfold scan
      simp only [hempty]

theorem extent_delimited {c : Char} (hc : isDelimited c = true) (cs : List Char) :
    extent (c :: cs) = c :: cs :=
  if_pos hc

theorem extent_bare {c : Char} (hc : isDelimited c = false) (cs : List Char) :
    extent (c :: cs) = (c :: cs).takeWhile fun d => !isEnd d := by
  rw [extent, if_neg (by simp [hc])]

theorem found_run {w cs spelling : List Char} {c : Char} {value : Value}
    (hw : ∀ d ∈ w, isSpace d = true) (hc : isSpace c = false) :
    scan.found (w ++ c :: cs) value spelling =
      ⟨value, if ((c :: cs).drop spelling.length).head? = some ' ' then
          w.length + spelling.length + 1
        else w.length + spelling.length⟩ := by
  have hleading : (w ++ c :: cs).takeWhile isSpace = w :=
    Text.takeWhile_run hw (by simpa using hc)
  simp only [scan.found, hleading, List.drop_append, List.drop_of_length_le
    (Nat.le_add_right w.length spelling.length), Nat.add_sub_cancel_left, List.nil_append]

/-- A value is found with its spelling, the spaces in front of it and a space after it. -/
theorem scan_of_judge {w cs tail : List Char} {c : Char} {value : Value}
    (hw : ∀ d ∈ w, isSpace d = true) (hc : isSpace c = false)
    (h : judge (extent (c :: cs ++ tail)) = .ok (value, c :: cs)) :
    scan (w ++ c :: cs ++ tail) =
      .ok (some ⟨value,
        if tail.head? = some ' ' then w.length + (c :: cs).length + 1
        else w.length + (c :: cs).length⟩) := by
  rw [List.append_assoc, List.cons_append]
  refine (scan_eq_ok_iff hw hc).mpr ⟨value, c :: cs, h, ?_⟩
  rw [found_run hw hc, ← List.cons_append, List.drop_left]

/-! ### The text of a value -/

theorem whole_chars (w : Number.Whole) :
    (Value.number (.whole w)).chars = Number.intChars w.val := by
  simp [Value.chars, Value.toJson, Json.chars, Json.write, Number.chars]

theorem double_chars (d : Number.Double) : (Value.number (.double d)).chars = d.chars := by
  simp [Value.chars, Value.toJson, Json.chars, Json.write, Number.chars]

/-- The texts that do not show their own end. -/
theorem bare_chars {v : Value} (hstring : ∀ s, v ≠ .string s)
    (hdouble : ∀ d, v ≠ .number (.double d)) :
    ∃ c cs, v.chars = c :: cs ∧ isSpace c = false ∧ isDelimited c = false ∧
      (∀ d ∈ v.chars, isEnd d = false) ∧ readValue v.chars = .ok (v.toJson, []) := by
  have hword {w : List Char} (h : w.all (fun d => !isEnd d) = true) : ∀ d ∈ w, isEnd d = false :=
    fun d hd => by simpa using List.all_eq_true.mp h d hd
  cases v with
  | null =>
      exact ⟨'n', ['u', 'l', 'l'], rfl, rfl, rfl, hword rfl, Json.readValue_n.mpr ⟨rfl, rfl⟩⟩
  | bool b =>
      cases b with
      | false =>
          exact ⟨'f', ['a', 'l', 's', 'e'], rfl, rfl, rfl, hword rfl,
            Json.readValue_f.mpr ⟨rfl, rfl⟩⟩
      | true =>
          exact ⟨'t', ['r', 'u', 'e'], rfl, rfl, rfl, hword rfl, Json.readValue_t.mpr ⟨rfl, rfl⟩⟩
  | string s => exact absurd rfl (hstring s)
  | number n =>
      cases n with
      | double d => exact absurd rfl (hdouble d)
      | whole w =>
          have hplain : ∀ d ∈ Number.intChars w.val, isSpace d = false ∧ isEnd d = false ∧
              isDelimited d = false ∧ isBoundary d = false := fun d hd =>
            plain_of_isNumeralChar (Json.isNumeralChar_of_integer (Json.mem_intChars hd))
          have hread := Json.readNumeral_intChars w
          rw [whole_chars]
          cases hchars : Number.intChars w.val with
          | nil => exact absurd hchars (Json.intChars_ne_nil w.val)
          | cons c cs =>
              have hc := Json.mem_intChars (n := w.val) (c := c) (by simp [hchars])
              rw [hchars] at hread hplain
              obtain ⟨hspace, -, hdelimited, -⟩ := hplain c (by simp)
              exact ⟨c, cs, rfl, hspace, hdelimited, fun d hd => (hplain d hd).2.1,
                (Json.readValue_number hc).mpr ⟨_, hread, rfl⟩⟩

theorem isDouble_toJson {v : Value} (hdouble : ∀ d, v ≠ .number (.double d)) :
    isDouble v.toJson = false := by
  cases v with
  | number n =>
      cases n with
      | double d => exact absurd rfl (hdouble d)
      | whole w => rfl
  | _ => rfl

theorem string_chars (s : String) :
    (Value.string s).chars = '"' :: (s.toList.flatMap Json.escape ++ ['"']) := by
  simp [Value.chars, Value.toJson, Json.chars, Json.write, Json.quote]

/-- A string in any of its spellings, whatever follows. -/
theorem judge_spelled {s : String} {e : List Char} (he : Json.SpellsString s e)
    (tail : List Char) : judge (extent (e ++ tail)) = .ok (.string s, e) := by
  obtain ⟨body, rfl, hbody⟩ := he
  have hread := Json.readValue_quoted.mpr ⟨_, hbody.readQuoted tail, rfl⟩
  rw [String.ofList_toList] at hread
  rw [List.cons_append, extent_delimited rfl]
  refine judge_eq_ok_iff.mpr ⟨tail, rfl, ?_, .inl ⟨'"', rfl, rfl⟩, rfl⟩
  rw [List.append_assoc]
  exact hread

theorem judge_chars {v : Value} (hdouble : ∀ d, v ≠ .number (.double d)) {tail : List Char}
    (htail : ∀ d ∈ tail.head?, isEnd d = true) :
    ∃ c cs, v.chars = c :: cs ∧ isSpace c = false ∧
      judge (extent (c :: (cs ++ tail))) = .ok (v, v.chars) := by
  by_cases hstring : ∃ s, v = .string s
  · obtain ⟨s, rfl⟩ := hstring
    have hjudge := judge_spelled (Json.spellsString_quote s) tail
    rw [string_chars]
    exact ⟨'"', _, rfl, by decide, hjudge⟩
  · obtain ⟨c, cs, hchars, hspace, hdelimited, hend, hread⟩ :=
      bare_chars (fun s h => hstring ⟨s, h⟩) hdouble
    rw [hchars] at hend hread
    refine ⟨c, cs, hchars, hspace, ?_⟩
    rw [extent_bare hdelimited, ← List.cons_append,
      Text.takeWhile_run (by simpa using hend) (by simpa using htail), hchars]
    exact judge_eq_ok_iff.mpr ⟨[], (List.append_nil _).symm, hread, .inr (by simp [Bounded]),
      by simp [isDouble_toJson hdouble]⟩

/-- **A value is read back from its text**, and the space after it with it. -/
theorem scan_chars {v : Value} (hdouble : ∀ d, v ≠ .number (.double d)) {tail : List Char}
    (htail : ∀ d ∈ tail.head?, isEnd d = true) :
    scan (v.chars ++ tail) =
      .ok (some ⟨v,
        if tail.head? = some ' ' then v.chars.length + 1 else v.chars.length⟩) := by
  obtain ⟨c, cs, hchars, hspace, hjudge⟩ := judge_chars hdouble htail
  rw [hchars] at hjudge ⊢
  simpa using scan_of_judge (w := []) (by simp) hspace hjudge

/-! ### Any value in front of a closing character -/

/-- The text of a number is read as a whole, if at all: what would be left would start with a
character that may not follow a number. -/
theorem judge_numeral {cs spelling : List Char} {value : Value}
    (hcs : ∀ c ∈ cs, Json.isNumeralChar c = true) (h : judge cs = .ok (value, spelling)) :
    spelling = cs ∧ readValue cs = .ok (value.toJson, []) ∧
      (isDouble value.toJson && isInteger cs) = false := by
  obtain ⟨rest, rfl, hread, hend, hrange⟩ := judge_eq_ok_iff.mp h
  cases rest with
  | nil =>
      rw [List.append_nil]
      rw [List.append_nil] at hread
      exact ⟨rfl, hread, hrange⟩
  | cons d more =>
      rcases hend with ⟨c, hc, hdelimited⟩ | hboundary
      · have hmem := List.mem_append_left (d :: more) (List.mem_of_mem_head? hc)
        simp [(plain_of_isNumeralChar (hcs c hmem)).2.2.1] at hdelimited
      · have hmem : d ∈ spelling ++ d :: more := by simp
        have := hboundary d rfl
        simp [(plain_of_isNumeralChar (hcs d hmem)).2.2.2] at this

/-- The part of the text that is read is a number as a whole. -/
theorem extent_numeral {c : Char} {cs tail : List Char}
    (hcs : ∀ d ∈ c :: cs, Json.isNumeralChar d = true) (htail : ∀ d ∈ tail.head?, isEnd d = true) :
    extent (c :: (cs ++ tail)) = c :: cs := by
  have hdelimited := (plain_of_isNumeralChar (hcs c (by simp))).2.2.1
  rw [extent_bare hdelimited, ← List.cons_append]
  refine Text.takeWhile_run ?_ (by simpa using htail)
  intro d hd
  simp [(plain_of_isNumeralChar (hcs d hd)).2.1]

/-- The value with the number of characters up to the end of `cs`, and up to a space after it. -/
def upTo (cs tail : List Char) (l : Literal) : Literal :=
  ⟨l.value, if tail.head? = some ' ' then cs.length + 1 else cs.length⟩

/-- The text of a number is found, or refused, alike in front of a closing character. -/
theorem scan_numeral {cs tail : List Char} (hne : cs ≠ [])
    (hcs : ∀ c ∈ cs, Json.isNumeralChar c = true) (htail : ∀ d ∈ tail.head?, isEnd d = true) :
    scan (cs ++ tail) = (scan cs).map (Option.map (upTo cs tail)) := by
  obtain ⟨c, more, rfl⟩ := List.exists_cons_of_ne_nil hne
  have hspace := (plain_of_isNumeralChar (hcs c (by simp))).1
  have hscan {tail : List Char} (htail : ∀ d ∈ tail.head?, isEnd d = true) :
      scan (c :: (more ++ tail)) =
        (judge (c :: more)).map fun found =>
          some (scan.found (c :: (more ++ tail)) found.1 found.2) := by
    have hextent := extent_numeral hcs htail
    have hrun := @scan_run [] (more ++ tail) c (by simp) hspace (by simp [hextent])
    rw [hextent] at hrun
    exact hrun
  have hself := @hscan [] (by simp)
  rw [List.append_nil] at hself
  rw [List.cons_append, hscan htail, hself]
  cases hjudge : judge (c :: more) with
  | error fault => rfl
  | ok found =>
      obtain ⟨value, spelling⟩ := found
      obtain ⟨rfl, -⟩ := judge_numeral hcs hjudge
      have hfound : scan.found (c :: (more ++ tail)) value (c :: more) =
          ⟨value, if tail.head? = some ' ' then (c :: more).length + 1 else (c :: more).length⟩ := by
        have hrun := @found_run [] (more ++ tail) (c :: more) c value (by simp) hspace
        simpa using hrun
      simp only [Except.map, Option.map, hfound, upTo]
      rfl

/-- **The text of a value in front of a closing character**: the same value is found as in the text
by itself, or it is refused for the same reason. -/
theorem scan_append_chars (v : Value) {tail : List Char} (htail : ∀ d ∈ tail.head?, isEnd d = true) :
    scan (v.chars ++ tail) = (scan v.chars).map (Option.map (upTo v.chars tail)) := by
  by_cases hdouble : ∃ d, v = .number (.double d)
  · obtain ⟨d, rfl⟩ := hdouble
    rw [double_chars]
    exact scan_numeral d.chars_ne_nil (fun c hc => Number.Double.isNumeralChar_of_mem hc) htail
  · have hself := @scan_chars v (fun d h => hdouble ⟨d, h⟩) [] (by simp)
    rw [List.append_nil] at hself
    rw [scan_chars (fun d h => hdouble ⟨d, h⟩) htail, hself]
    rfl

end Literal

end ScimQuery
