import ScimQuery.Json.Reader

/-!
# Json — Skip

Passing over a value that is not wanted.  Its shape is checked but nothing is decoded: numbers
of any size pass, half a surrogate pair passes, and there is no limit on nesting.  The lists and
objects that are open are kept on a stack.
-/

namespace ScimQuery.Json

/-- A list or an object that is open. -/
inductive Frame where
  | list
  | object
  deriving Repr, DecidableEq

/-- The character that closes a frame. -/
def Frame.close : Frame → Char
  | .list => ']'
  | .object => '\x7d'

/-- Passes over digits: the text after them, if there is one at least. -/
def skipDigits? (cs : List Char) : Option (List Char) :=
  match cs with
  | c :: _ => if isDigit c then some (cs.dropWhile isDigit) else none
  | [] => none

/-- Passes over a sign, if there is one. -/
def skipSign : List Char → List Char
  | '+' :: rest => rest
  | '-' :: rest => rest
  | rest => rest

/-- Passes over the exponent of a number, after its mark. -/
def skipExponent (cs : List Char) : Except Fault (List Char) :=
  match skipDigits? (skipSign cs) with
  | some rest => .ok rest
  | none => .error (.on .invalidNumber (skipSign cs))

/-- Passes over what follows the whole part of a number. -/
def skipTail (cs : List Char) : Except Fault (List Char) :=
  match cs with
  | '.' :: fraction =>
    match skipDigits? fraction with
    | none => .error (.on .invalidNumber fraction)
    | some ('e' :: rest) => skipExponent rest
    | some ('E' :: rest) => skipExponent rest
    | some rest => .ok rest
  | 'e' :: rest => skipExponent rest
  | 'E' :: rest => skipExponent rest
  | rest => .ok rest

/-- Passes over a number, after its sign. -/
def skipNumeral (cs : List Char) : Except Fault (List Char) :=
  match cs with
  | '0' :: rest =>
    if (skipDigits? rest).isSome then .error (.on .invalidNumber rest) else skipTail rest
  | _ =>
    match skipDigits? cs with
    | some rest => skipTail rest
    | none => .error (.on .invalidNumber cs)

/-- Passes over a string, after its opening quote. -/
def skipQuoted (cs : List Char) : Except Fault (List Char) :=
  match cs with
  | [] => .error (.before .endInString [])
  | c :: rest =>
    if c = '"' then .ok rest
    else if c = '\\' then
      match rest with
      | [] => .error (.before .endInString [])
      | d :: more =>
        if (shortEscape? d).isSome then skipQuoted more
        else if d = 'u' then
          match _ : readHex4 more with
          | .error fault => .error fault
          | .ok (_, after) => skipQuoted after
        else .error (.on .invalidEscape rest)
    else if c.toNat < 0x20 then .error (.before .controlCharacter cs)
    else skipQuoted rest
termination_by cs.length
decreasing_by
  · simp only [List.length_cons]; omega
  · have := readHex4_length ‹_›; simp only [List.length_cons]; omega
  · simp

/-- Passes over a value that is neither a list nor an object, if there is one. -/
def skipLeaf (cs : List Char) : Except Fault (List Char) :=
  match cs with
  | [] => .error (.on .endInValue [])
  | c :: rest =>
    if c = 'n' then readWord "ull".toList rest
    else if c = 't' then readWord "rue".toList rest
    else if c = 'f' then readWord "alse".toList rest
    else if c = '"' then skipQuoted rest
    else if c = '-' then skipNumeral rest
    else if isDigit c then skipNumeral cs
    else .error (.on .expectedValue cs)

/-- The frame that a character opens. -/
def Frame.ofOpen? (c : Char) : Option Frame :=
  if c = '[' then some .list else if c = '\x7b' then some .object else none

/-- Passes over the key and the colon of a member. -/
def skipKey (cs : List Char) : Except Fault (List Char) :=
  match skipSpace cs with
  | [] => .error (.on .endInObject [])
  | c :: rest =>
    if c = '"' then
      match skipQuoted rest with
      | .error fault => .error fault
      | .ok colon => readColon colon
    else .error (.on .keyNotString (c :: rest))

/-- The reason for a text that ends inside a frame. -/
def Frame.unended : Frame → Reason
  | .list => .endInList
  | .object => .endInObject

/-- The reason for text after a part of a frame that neither goes on nor ends. -/
def Frame.unfinished : Frame → Reason
  | .list => .expectedListEnd
  | .object => .expectedObjectEnd

/-- Passes over the key in front of a value in a frame. -/
def Frame.skipKey : Frame → List Char → Except Fault (List Char)
  | .list, cs => .ok cs
  | .object, cs => Json.skipKey cs

/-! ### Passing over moves on -/

theorem skipDigits?_length {cs rest : List Char} (h : skipDigits? cs = some rest) :
    rest.length < cs.length := by
  unfold skipDigits? at h
  split at h
  · split at h
    · rename_i c more hc
      cases h
      have := length_dropWhile_le isDigit more
      simp only [List.dropWhile_cons, hc, if_true, List.length_cons]
      omega
    · cases h
  · cases h

theorem skipSign_length (cs : List Char) : (skipSign cs).length ≤ cs.length := by
  unfold skipSign
  split <;> simp

theorem skipExponent_length {cs rest : List Char} (h : skipExponent cs = .ok rest) :
    rest.length ≤ cs.length := by
  unfold skipExponent at h
  split at h
  · rename_i hd
    cases h
    exact Nat.le_trans (Nat.le_of_lt (skipDigits?_length hd)) (skipSign_length cs)
  · cases h

theorem skipTail_length {cs rest : List Char} (h : skipTail cs = .ok rest) :
    rest.length ≤ cs.length := by
  unfold skipTail at h
  split at h
  · split at h
    · cases h
    · rename_i hd
      have h₁ := skipDigits?_length hd
      have h₂ := skipExponent_length h
      simp at h₁ ⊢; omega
    · rename_i hd
      have h₁ := skipDigits?_length hd
      have h₂ := skipExponent_length h
      simp at h₁ ⊢; omega
    · rename_i hd
      cases h
      have h₁ := skipDigits?_length hd
      simp only [List.length_cons]; omega
  · have := skipExponent_length h; simp only [List.length_cons]; omega
  · have := skipExponent_length h; simp only [List.length_cons]; omega
  · cases h; exact Nat.le_refl _

theorem skipNumeral_length {cs rest : List Char} (h : skipNumeral cs = .ok rest) :
    rest.length < cs.length := by
  unfold skipNumeral at h
  split at h
  · split at h
    · cases h
    · have := skipTail_length h; simp only [List.length_cons]; omega
  · split at h
    · rename_i hd
      exact Nat.lt_of_le_of_lt (skipTail_length h) (skipDigits?_length hd)
    · cases h

theorem skipQuoted_length {cs rest : List Char} (h : skipQuoted cs = .ok rest) :
    rest.length < cs.length := by
  fun_induction skipQuoted cs with
  | case1 => cases h
  | case2 => cases h; simp
  | case3 => cases h
  | case4 _ _ _ _ ih => have := ih h; simp only [List.length_cons]; omega
  | case5 => cases h
  | case6 _ _ _ hex _ _ ih =>
    have h₁ := readHex4_length hex
    have h₂ := ih h
    simp only [List.length_cons]; omega
  | case7 => cases h
  | case8 => cases h
  | case9 _ _ _ _ _ ih => have := ih h; simp only [List.length_cons]; omega

theorem skipLeaf_length {cs rest : List Char} (h : skipLeaf cs = .ok rest) :
    rest.length < cs.length := by
  unfold skipLeaf at h
  split at h
  · cases h
  · split at h
    · have := readWord_length h; simp only [List.length_cons]; omega
    · split at h
      · have := readWord_length h; simp only [List.length_cons]; omega
      · split at h
        · have := readWord_length h; simp only [List.length_cons]; omega
        · split at h
          · have := skipQuoted_length h; simp only [List.length_cons]; omega
          · split at h
            · have := skipNumeral_length h; simp only [List.length_cons]; omega
            · split at h
              · exact skipNumeral_length h
              · cases h

theorem skipKey_length {cs rest : List Char} (h : skipKey cs = .ok rest) :
    rest.length ≤ cs.length := by
  unfold skipKey at h
  split at h
  · cases h
  · rename_i hc
    have h₁ := length_of_skipSpace hc
    split at h
    · split at h
      · cases h
      · rename_i hq
        have h₂ := skipQuoted_length hq
        have h₃ := readColon_length h
        omega
    · cases h

theorem Frame.skipKey_length {frame : Frame} {cs rest : List Char}
    (h : frame.skipKey cs = .ok rest) : rest.length ≤ cs.length := by
  cases frame with
  | list => cases h; exact Nat.le_refl _
  | object => exact Json.skipKey_length h

/-! ### Values of any shape -/

/-- What comes next when a value is passed over. -/
inductive Due where
  /-- A value. -/
  | value
  /-- The first part of a frame, or its end. -/
  | first
  /-- A further part of a frame, or its end. -/
  | further
  deriving Repr, DecidableEq

/-- A frame that has just been opened may be looked into once without reading on. -/
def Due.weight : Due → Nat
  | .first => 1
  | _ => 0

/-- Passes over the rest of a value whose open frames are on the stack, innermost first. -/
def skipFrom (due : Due) (stack : List Frame) (cs : List Char) : Except Fault (List Char) :=
  match due, stack with
  | .value, _ =>
    match h : skipSpace cs with
    | [] => .error (.on .endInValue [])
    | c :: rest =>
      have _ := length_of_skipSpace h
      match Frame.ofOpen? c with
      | some frame => skipFrom .first (frame :: stack) rest
      | none =>
        match hleaf : skipLeaf (c :: rest) with
        | .error fault => .error fault
        | .ok after =>
          have _ := skipLeaf_length hleaf
          skipFrom .further stack after
  | _, [] => .ok cs
  | .first, frame :: outer =>
    match h : skipSpace cs with
    | [] => .error (.on frame.unended [])
    | c :: rest =>
      have _ := length_of_skipSpace h
      if c = frame.close then skipFrom .further outer rest
      else
        match hkey : frame.skipKey (c :: rest) with
        | .error fault => .error fault
        | .ok after =>
          have _ := Frame.skipKey_length hkey
          skipFrom .value (frame :: outer) after
  | .further, frame :: outer =>
    match h : skipSpace cs with
    | [] => .error (.on frame.unended [])
    | c :: rest =>
      have _ := length_of_skipSpace h
      if c = frame.close then skipFrom .further outer rest
      else if c = ',' then
        match hkey : frame.skipKey rest with
        | .error fault => .error fault
        | .ok after =>
          have _ := Frame.skipKey_length hkey
          skipFrom .value (frame :: outer) after
      else .error (.on frame.unfinished (c :: rest))
termination_by 2 * cs.length + due.weight
decreasing_by
  all_goals simp_all [Due.weight]
  all_goals omega

/-- Passes over the value at the start of a text, after spaces. -/
def skipValue (cs : List Char) : Except Fault (List Char) :=
  skipFrom .value [] cs

end ScimQuery.Json
