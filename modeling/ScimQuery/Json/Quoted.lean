import ScimQuery.Json.Fault

/-!
# Json — Quoted

Strings between double quotes.  `quote` writes a string with as few escapes as the format
allows: the quote, the backslash and the control characters, those with a short escape by it
and the others by `\u00xx` in lower case.  `readQuoted` reads every spelling of a string: raw
characters, short escapes, and `\u` escapes with hexadecimal digits of either case, where a
character beyond the basic plane is spelled by a pair of surrogates.
-/

namespace ScimQuery.Json

/-! ### Writing -/

/-- The lower-case hexadecimal digit of a number below 16. -/
def hexDigit (n : Nat) : Char :=
  Nat.digitChar n

/-- The spelling of one character inside quotes. -/
def escape (c : Char) : List Char :=
  if c = '"' then ['\\', '"']
  else if c = '\\' then ['\\', '\\']
  else if c = '\x08' then ['\\', 'b']
  else if c = '\x0c' then ['\\', 'f']
  else if c = '\n' then ['\\', 'n']
  else if c = '\r' then ['\\', 'r']
  else if c = '\t' then ['\\', 't']
  else if c.toNat < 0x20 then
    ['\\', 'u', '0', '0', hexDigit (c.toNat / 16), hexDigit (c.toNat % 16)]
  else [c]

/-- A string between quotes. -/
def quote (cs : List Char) : List Char :=
  '"' :: (cs.flatMap escape ++ ['"'])

/-! ### Reading -/

/-- The value of a hexadecimal digit. -/
def hexValue? (c : Char) : Option Nat :=
  if '0' ≤ c ∧ c ≤ '9' then some (c.toNat - '0'.toNat)
  else if 'a' ≤ c ∧ c ≤ 'f' then some (c.toNat - 'a'.toNat + 10)
  else if 'A' ≤ c ∧ c ≤ 'F' then some (c.toNat - 'A'.toNat + 10)
  else none

/-- The value of four hexadecimal digits. -/
def hexValue4? (a b c d : Char) : Option Nat := do
  let a ← hexValue? a
  let b ← hexValue? b
  let c ← hexValue? c
  let d ← hexValue? d
  return ((a * 16 + b) * 16 + c) * 16 + d

/-- Four hexadecimal digits, and the text after them. -/
def readHex4 (cs : List Char) : Except Fault (Nat × List Char) :=
  if byteSize (cs.take 4) < 4 then .error (.before .endInString [])
  else
    match cs with
    | a :: b :: c :: d :: rest =>
      match hexValue4? a b c d with
      | some n => .ok (n, rest)
      | none => .error ⟨.invalidEscape, cs, 4⟩
    | _ => .error ⟨.invalidEscape, cs, 4⟩

/-- Is `n` the first half of a surrogate pair? -/
def isHighSurrogate (n : Nat) : Bool :=
  0xD800 ≤ n && n ≤ 0xDBFF

/-- Is `n` the second half of a surrogate pair? -/
def isLowSurrogate (n : Nat) : Bool :=
  0xDC00 ≤ n && n ≤ 0xDFFF

/-- The character of a surrogate pair. -/
def ofSurrogates (high low : Nat) : Char :=
  Char.ofNat ((high - 0xD800) * 0x400 + (low - 0xDC00) + 0x10000)

/-- The second half of a surrogate pair, with its `\u`. -/
def readLowSurrogate (high : Nat) (cs : List Char) : Except Fault (Char × List Char) :=
  match cs with
  | [] => .error (.before .endInString [])
  | b :: more =>
    if b ≠ '\\' then .error (.on .unfinishedSurrogate cs)
    else
      match more with
      | [] => .error (.before .endInString [])
      | u :: digits =>
        if u ≠ 'u' then .error (.on .unfinishedSurrogate more)
        else
          match readHex4 digits with
          | .error fault => .error fault
          | .ok (low, rest) =>
            if isLowSurrogate low then .ok (ofSurrogates high low, rest)
            else .error (.before .loneSurrogate rest)

/-- A `\u` escape after its `u`. -/
def readUnicode (cs : List Char) : Except Fault (Char × List Char) :=
  match readHex4 cs with
  | .error fault => .error fault
  | .ok (n, rest) =>
    if isLowSurrogate n then .error (.before .loneSurrogate rest)
    else if isHighSurrogate n then readLowSurrogate n rest
    else .ok (Char.ofNat n, rest)

/-- The character of a short escape. -/
def shortEscape? (c : Char) : Option Char :=
  match c with
  | '"' => some '"'
  | '\\' => some '\\'
  | '/' => some '/'
  | 'b' => some '\x08'
  | 'f' => some '\x0c'
  | 'n' => some '\n'
  | 'r' => some '\r'
  | 't' => some '\t'
  | _ => none

/-- An escape after its backslash. -/
def readEscape (cs : List Char) : Except Fault (Char × List Char) :=
  match cs with
  | [] => .error (.before .endInString [])
  | c :: rest =>
    match shortEscape? c with
    | some d => .ok (d, rest)
    | none => if c = 'u' then readUnicode rest else .error (.on .invalidEscape cs)

theorem readHex4_length {cs rest : List Char} {n : Nat} (h : readHex4 cs = .ok (n, rest)) :
    rest.length < cs.length := by
  unfold readHex4 at h
  split at h
  · cases h
  · split at h
    · split at h
      · cases h; simp only [List.length_cons]; omega
      · cases h
    · cases h

theorem readLowSurrogate_length {high : Nat} {cs rest : List Char} {c : Char}
    (h : readLowSurrogate high cs = .ok (c, rest)) : rest.length < cs.length := by
  unfold readLowSurrogate at h
  split at h
  · cases h
  · split at h
    · cases h
    · split at h
      · cases h
      · split at h
        · cases h
        · split at h
          · cases h
          · rename_i heq
            split at h
            · obtain ⟨-, rfl⟩ := Prod.mk.inj (Except.ok.inj h)
              have := readHex4_length heq
              simp only [List.length_cons]; omega
            · cases h

theorem readUnicode_length {cs rest : List Char} {c : Char}
    (h : readUnicode cs = .ok (c, rest)) : rest.length < cs.length := by
  unfold readUnicode at h
  split at h
  · cases h
  · rename_i heq
    have h₁ := readHex4_length heq
    split at h
    · cases h
    · split at h
      · have := readLowSurrogate_length h; omega
      · cases h; exact h₁

theorem readEscape_length {cs rest : List Char} {c : Char}
    (h : readEscape cs = .ok (c, rest)) : rest.length < cs.length := by
  unfold readEscape at h
  split at h
  · cases h
  · split at h
    · cases h; simp
    · split at h
      · have := readUnicode_length h; simp only [List.length_cons]; omega
      · cases h

/-- A string after its opening quote: its characters, and the text after its closing quote. -/
def readQuoted (cs : List Char) : Except Fault (List Char × List Char) :=
  match cs with
  | [] => .error (.before .endInString [])
  | c :: rest =>
    if c = '"' then .ok ([], rest)
    else if c = '\\' then
      match _ : readEscape rest with
      | .error fault => .error fault
      | .ok (d, more) =>
        match readQuoted more with
        | .error fault => .error fault
        | .ok (ds, after) => .ok (d :: ds, after)
    else if c.toNat < 0x20 then .error (.before .controlCharacter rest)
    else
      match readQuoted rest with
      | .error fault => .error fault
      | .ok (ds, after) => .ok (c :: ds, after)
termination_by cs.length
decreasing_by
  · have := readEscape_length ‹_›; simp only [List.length_cons]; omega
  · simp

theorem readQuoted_length {cs ds rest : List Char} (h : readQuoted cs = .ok (ds, rest)) :
    rest.length < cs.length := by
  fun_induction readQuoted cs generalizing ds rest with
  | case1 => cases h
  | case2 => cases h; simp
  | case3 => cases h
  | case4 => cases h
  | case5 _ _ _ heq _ _ hq _ ih =>
    cases h
    have h₁ := readEscape_length heq
    have h₂ := ih hq
    simp only [List.length_cons]; omega
  | case6 => cases h
  | case7 => cases h
  | case8 _ _ _ _ _ _ _ hq ih =>
    cases h
    have := ih hq
    simp only [List.length_cons]; omega

end ScimQuery.Json
