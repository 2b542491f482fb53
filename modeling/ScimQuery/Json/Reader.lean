import ScimQuery.Json.Basic
import ScimQuery.Json.Numeral

/-!
# Json — Reader

Reading a JSON value from the front of a text.  A reader gives the value and the text after
it, which is shorter than the text it started from; this is part of its type (`Reader`), and is
what makes the loops over items and members end.  Lists and objects nest at most `maxNesting`
deep.
-/

namespace ScimQuery.Json

/-- The space between the parts of a JSON text. -/
def isSpace (c : Char) : Bool :=
  c == ' ' || c == '\n' || c == '\t' || c == '\r'

/-- The text from its first character that is not a space. -/
def skipSpace (cs : List Char) : List Char :=
  cs.dropWhile isSpace

theorem skipSpace_length (cs : List Char) : (skipSpace cs).length ≤ cs.length :=
  length_dropWhile_le isSpace cs

/-- A text shorter than `cs`. -/
abbrev Shorter (cs : List Char) := { rest : List Char // rest.length < cs.length }

/-- A reader of an `α` from the front of a text. -/
abbrev Reader (α : Type) := (cs : List Char) → Except Fault (α × Shorter cs)

/-- The rest of a word, whose first letter has been read. -/
def readWord : List Char → List Char → Except Fault (List Char)
  | [], cs => .ok cs
  | _ :: _, [] => .error (.before .endInValue [])
  | w :: word, c :: cs => if c = w then readWord word cs else .error (.on .expectedWord (c :: cs))

theorem readWord_length {word cs rest : List Char} (h : readWord word cs = .ok rest) :
    rest.length ≤ cs.length := by
  fun_induction readWord word cs with
  | case1 => cases h; exact Nat.le_refl _
  | case2 => cases h
  | case3 _ _ _ ih => have := ih h; simp only [List.length_cons]; omega
  | case4 => cases h

/-- What comes next in a list or an object. -/
inductive Next where
  /-- Its end, in front of `rest`. -/
  | closed (rest : List Char)
  /-- Another part, at the start of `rest`. -/
  | more (rest : List Char)

/-- The text that goes with what comes next. -/
def Next.rest : Next → List Char
  | .closed rest => rest
  | .more rest => rest

/-- What comes next in a list, after its opening bracket (`first`) or after an item. -/
def nextItem (first : Bool) (cs : List Char) : Except Fault Next :=
  match skipSpace cs with
  | [] => .error (.on .endInList [])
  | c :: rest =>
    if c = ']' then .ok (.closed rest)
    else if first then .ok (.more (c :: rest))
    else if c = ',' then
      match skipSpace rest with
      | [] => .error (.on .endInValue [])
      | d :: others =>
        if d = ']' then .error (.on .trailingComma (d :: others)) else .ok (.more (d :: others))
    else .error (.on .expectedListEnd (c :: rest))

/-- What comes next in an object, after its opening brace (`first`) or after a member.  The
next member starts after the quote of its key. -/
def nextMember (first : Bool) (cs : List Char) : Except Fault Next :=
  match skipSpace cs with
  | [] => .error (.on .endInObject [])
  | c :: rest =>
    if c = '\x7d' then .ok (.closed rest)
    else if first then
      if c = '"' then .ok (.more rest) else .error (.on .keyNotString (c :: rest))
    else if c = ',' then
      match skipSpace rest with
      | [] => .error (.on .endInValue [])
      | d :: others =>
        if d = '"' then .ok (.more others)
        else if d = '\x7d' then .error (.on .trailingComma (d :: others))
        else .error (.on .keyNotString (d :: others))
    else .error (.on .expectedObjectEnd (c :: rest))

/-- The colon after a key. -/
def readColon (cs : List Char) : Except Fault (List Char) :=
  match skipSpace cs with
  | [] => .error (.on .endInObject [])
  | c :: rest => if c = ':' then .ok rest else .error (.on .expectedColon (c :: rest))

theorem length_of_skipSpace {cs rest : List Char} {c : Char} (h : skipSpace cs = c :: rest) :
    rest.length + 1 ≤ cs.length := by
  have := skipSpace_length cs
  rw [h] at this
  simpa using this

theorem nextItem_length {first : Bool} {cs : List Char} {next : Next}
    (h : nextItem first cs = .ok next) : next.rest.length ≤ cs.length := by
  unfold nextItem at h
  split at h
  · cases h
  · rename_i hc
    have h₁ := length_of_skipSpace hc
    split at h
    · cases h; simp [Next.rest]; omega
    · split at h
      · cases h; simpa [Next.rest] using h₁
      · split at h
        · split at h
          · cases h
          · rename_i hd
            have h₂ := length_of_skipSpace hd
            split at h
            · cases h
            · cases h; simp [Next.rest]; omega
        · cases h

theorem nextItem_closed_length {first : Bool} {cs rest : List Char}
    (h : nextItem first cs = .ok (.closed rest)) : rest.length < cs.length := by
  unfold nextItem at h
  split at h
  · cases h
  · rename_i hc
    have h₁ := length_of_skipSpace hc
    split at h
    · cases h; omega
    · split at h
      · cases h
      · split at h
        · split at h
          · cases h
          · split at h <;> cases h
        · cases h

theorem nextMember_length {first : Bool} {cs : List Char} {next : Next}
    (h : nextMember first cs = .ok next) : next.rest.length < cs.length := by
  unfold nextMember at h
  split at h
  · cases h
  · rename_i hc
    have h₁ := length_of_skipSpace hc
    split at h
    · cases h; simp [Next.rest]; omega
    · split at h
      · split at h
        · cases h; simp [Next.rest]; omega
        · cases h
      · split at h
        · split at h
          · cases h
          · rename_i hd
            have h₂ := length_of_skipSpace hd
            split at h
            · cases h; simp [Next.rest]; omega
            · split at h <;> cases h
        · cases h

theorem readColon_length {cs rest : List Char} (h : readColon cs = .ok rest) :
    rest.length < cs.length := by
  unfold readColon at h
  split at h
  · cases h
  · rename_i hc
    have h₁ := length_of_skipSpace hc
    split at h
    · cases h; omega
    · cases h

/-- The items of a list, after its opening bracket (`first`) or after an item. -/
def readItems (item : Reader Json) (first : Bool) (cs : List Char) :
    Except Fault (List Json × Shorter cs) :=
  match h : nextItem first cs with
  | .error fault => .error fault
  | .ok (.closed rest) => .ok ([], ⟨rest, nextItem_closed_length h⟩)
  | .ok (.more start) =>
    have hstart : start.length ≤ cs.length := nextItem_length h
    match item start with
    | .error fault => .error fault
    | .ok (v, ⟨rest, hrest⟩) =>
      match readItems item false rest with
      | .error fault => .error fault
      | .ok (vs, ⟨after, hafter⟩) => .ok (v :: vs, ⟨after, by omega⟩)
termination_by cs.length

/-- The members of an object, after its opening brace (`first`) or after a member. -/
def readMembers (item : Reader Json) (first : Bool) (cs : List Char) :
    Except Fault (List (String × Json) × Shorter cs) :=
  match h : nextMember first cs with
  | .error fault => .error fault
  | .ok (.closed rest) => .ok ([], ⟨rest, nextMember_length h⟩)
  | .ok (.more start) =>
    have hstart : start.length < cs.length := nextMember_length h
    match hkey : readQuoted start with
    | .error fault => .error fault
    | .ok (key, colon) =>
      have hcolon := readQuoted_length hkey
      match hvalue : readColon colon with
      | .error fault => .error fault
      | .ok value =>
        have hvalue := readColon_length hvalue
        match item value with
        | .error fault => .error fault
        | .ok (v, ⟨rest, hrest⟩) =>
          match readMembers item false rest with
          | .error fault => .error fault
          | .ok (vs, ⟨after, hafter⟩) =>
            .ok ((String.ofList key, v) :: vs, ⟨after, by omega⟩)
termination_by cs.length

/-- Lists and objects may be nested this deep. -/
def maxNesting : Nat := 127

/-- One of the words `null`, `true` and `false`, after its first letter. -/
def readNamed (v : Json) (word : String) (cs : List Char) :
    Except Fault (Json × { rest : List Char // rest.length ≤ cs.length }) :=
  match h : readWord word.toList cs with
  | .error fault => .error fault
  | .ok rest => .ok (v, ⟨rest, readWord_length h⟩)

/-- Reads a value in which lists and objects nest at most `nesting` deep.  An empty text is
refused; spaces in front of the value are not skipped. -/
def readAt (nesting : Nat) : Reader Json := fun cs =>
  match cs with
  | [] => .error (.on .endInValue [])
  | c :: rest =>
    if c = 'n' then (readNamed .null "ull" rest).map (after rest)
    else if c = 't' then (readNamed (.bool true) "rue" rest).map (after rest)
    else if c = 'f' then (readNamed (.bool false) "alse" rest).map (after rest)
    else if c = '"' then
      match h : readQuoted rest with
      | .error fault => .error fault
      | .ok (s, more) =>
        .ok (.string (String.ofList s),
          ⟨more, by have := readQuoted_length h; simp only [List.length_cons]; omega⟩)
    else if c = '-' ∨ isDigit c then
      match h : readNumeral (c :: rest) with
      | .error fault => .error fault
      | .ok (n, more) => .ok (.number n, ⟨more, readNumeral_length h⟩)
    else if c = '[' then
      match nesting with
      | 0 => .error (.on .nestingTooDeep (c :: rest))
      | nesting + 1 =>
        match readItems (spaced (readAt nesting)) true rest with
        | .error fault => .error fault
        | .ok (vs, ⟨more, h⟩) => .ok (.array vs, ⟨more, by simp only [List.length_cons]; omega⟩)
    else if c = '\x7b' then
      match nesting with
      | 0 => .error (.on .nestingTooDeep (c :: rest))
      | nesting + 1 =>
        match readMembers (spaced (readAt nesting)) true rest with
        | .error fault => .error fault
        | .ok (vs, ⟨more, h⟩) => .ok (ofMembers vs, ⟨more, by simp only [List.length_cons]; omega⟩)
    else .error (.on .expectedValue (c :: rest))
where
  /-- A value after its first character `c`. -/
  after {c : Char} (rest : List Char) :
      Json × { more : List Char // more.length ≤ rest.length } → Json × Shorter (c :: rest)
    | (v, ⟨more, h⟩) => (v, ⟨more, by simp only [List.length_cons]; omega⟩)
  /-- A reader that skips spaces first. -/
  spaced (item : Reader Json) : Reader Json := fun cs =>
    match item (skipSpace cs) with
    | .error fault => .error fault
    | .ok (v, ⟨rest, h⟩) => .ok (v, ⟨rest, by have := skipSpace_length cs; omega⟩)

/-- Reads the value at the start of a text: the value, and the text after it. -/
def readValue (cs : List Char) : Except Fault (Json × List Char) :=
  match readAt maxNesting cs with
  | .error fault => .error fault
  | .ok (v, rest) => .ok (v, rest.val)

/-- Reads a text that holds one value and spaces around it. -/
def read (cs : List Char) : Except Fault Json :=
  match readValue (skipSpace cs) with
  | .error fault => .error fault
  | .ok (v, rest) =>
    match skipSpace rest with
    | [] => .ok v
    | more => .error (.on .trailingText more)

end ScimQuery.Json
