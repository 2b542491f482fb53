import Mathlib.Data.List.Basic
import ScimQuery.Text.Classes
import ScimQuery.Text.Cursor

/-!
# Text — runs of characters

A reader takes the longest run of characters of a class.  A run in front of a text that starts
with another character is taken as a whole and nothing more (`takeWhile_run`, `dropWhile_run`),
so that what a word is does not depend on what follows it.

* `isWordChar_eq_false`: the characters with a meaning of their own stand in no word.
* `isBlank_eq_false`: no character of a word is a blank.
* `Cursor.within`: a place of a text that stands, some characters on, inside a longer text.
-/

namespace ScimQuery.Text

/-! ### Runs -/

variable {p : Char → Bool} {w s : List Char}

theorem takeWhile_run (hw : ∀ c ∈ w, p c = true) (hs : ∀ d ∈ s.head?, p d = false) :
    (w ++ s).takeWhile p = w := by
  rw [List.takeWhile_append_of_pos hw]
  cases s with
  | nil => simp
  | cons d s => simp [hs d rfl]

theorem dropWhile_run (hw : ∀ c ∈ w, p c = true) (hs : ∀ d ∈ s.head?, p d = false) :
    (w ++ s).dropWhile p = s := by
  rw [List.dropWhile_append_of_pos hw]
  cases s with
  | nil => rfl
  | cons d s => simp [hs d rfl]

/-- A text is its longest run, then a text that starts with another character. -/
theorem exists_run (p : Char → Bool) (cs : List Char) :
    ∃ w s, cs = w ++ s ∧ (∀ c ∈ w, p c = true) ∧ ∀ d ∈ s.head?, p d = false := by
  refine ⟨cs.takeWhile p, cs.dropWhile p, List.takeWhile_append_dropWhile.symm, ?_, ?_⟩
  · intro c hc
    exact List.all_eq_true.mp List.all_takeWhile c hc
  · intro d hd
    have := List.head?_dropWhile_not p cs
    rw [Option.mem_def.mp hd] at this
    simpa using this

/-- The spaces in front of a text. -/
theorem exists_spaces (cs : List Char) :
    ∃ n s, cs = List.replicate n ' ' ++ s ∧ ' ' ∉ s.head? := by
  obtain ⟨spaces, s, rfl, hspaces, hs⟩ := exists_run (· == ' ') cs
  refine ⟨spaces.length, s, ?_, ?_⟩
  · have hall : ∀ c ∈ spaces, c = ' ' := fun c hc => by simpa using hspaces c hc
    rw [← List.eq_replicate_of_mem hall]
  · intro hspace
    simpa using hs ' ' hspace

/-- A run goes no further where the text goes on with another character. -/
theorem takeWhile_append_tail (cs : List Char) (hs : ∀ d ∈ s.head?, p d = false) :
    (cs ++ s).takeWhile p = cs.takeWhile p := by
  obtain ⟨v, t, rfl, hv, ht⟩ := exists_run p cs
  have hts : ∀ d ∈ (t ++ s).head?, p d = false := by
    cases t with
    | nil => exact hs
    | cons c t => exact ht
  rw [List.append_assoc, takeWhile_run hv hts, takeWhile_run hv ht]

/-! ### Character classes -/

theorem isWordChar_of_isNameChar {c : Char} (h : isNameChar c = true) : isWordChar c = true := by
  simp [isWordChar, h]

/-- The characters with a meaning of their own stand in no word. -/
theorem isWordChar_eq_false {d : Char} (h : d ∈ [' ', '(', ')', '[', ']', '"']) :
    isWordChar d = false := by
  have hall : [' ', '(', ')', '[', ']', '"'].all (fun d => !isWordChar d) = true := by
    decide +kernel
  simpa using List.all_eq_true.mp hall d h

theorem isNameChar_dot : isNameChar '.' = false := by decide +kernel

/-- A character in one of the ranges lies between two of its ends. -/
theorem exists_range_of_inRanges {n : Nat} :
    ∀ {ranges : List (Nat × Nat)}, inRanges ranges n = true →
      ∃ r ∈ ranges, r.1 ≤ n ∧ n ≤ r.2
  | (lo, hi) :: more, h => by
      unfold inRanges at h
      split at h
      · cases h
      · split at h
        · exact ⟨(lo, hi), by simp, by dsimp only; omega, by dsimp only; omega⟩
        · obtain ⟨r, hr, hn⟩ := exists_range_of_inRanges h
          exact ⟨r, by simp [hr], hn⟩

/-- No character of a name is a blank: none of the few blanks is alphanumeric. -/
theorem isNameChar_eq_false_of_isBlank {c : Char} (h : isBlank c = true) :
    isNameChar c = false := by
  have few : ∀ r ∈ blankRanges, ∀ k < 11, r.1 + k ≤ r.2 →
      isNameChar (Char.ofNat (r.1 + k)) = false := by decide +kernel
  have short : ∀ r ∈ blankRanges, r.2 < r.1 + 11 := by decide
  obtain ⟨r, hr, hlo, hhi⟩ := exists_range_of_inRanges h
  have hk : r.1 + (c.toNat - r.1) = c.toNat := by omega
  have := few r hr (c.toNat - r.1) (by have := short r hr; omega) (by omega)
  rwa [hk, Char.ofNat_toNat] at this

theorem isBlank_eq_false {c : Char} (h : isWordChar c = true) : isBlank c = false := by
  cases hb : isBlank c with
  | false => rfl
  | true =>
      have hdot : c ≠ '.' := by rintro rfl; exact absurd hb (by decide)
      simp [isWordChar, isNameChar_eq_false_of_isBlank hb, hdot] at h

/-! ### Blanks around a text -/

/-- No blank is at the start or at the end of the text. -/
def Trimmed (cs : List Char) : Prop :=
  (∀ c ∈ cs.head?, isBlank c = false) ∧ ∀ c ∈ cs.getLast?, isBlank c = false

instance (cs : List Char) : Decidable (Trimmed cs) :=
  decidable_of_iff
    (cs.head?.all (fun c => !isBlank c) = true ∧ cs.getLast?.all (fun c => !isBlank c) = true)
    (by simp [Trimmed, Option.all_eq_true])

theorem trimEnd_of_trimmed {cs : List Char} (h : Trimmed cs) : trimEnd cs = cs := by
  have hlast : ∀ c ∈ cs.reverse.head?, isBlank c = false := by
    intro c hc
    exact h.2 c (by rwa [List.head?_reverse] at hc)
  have hdrop : cs.reverse.dropWhile isBlank = cs.reverse :=
    dropWhile_run (w := []) (by simp) hlast
  rw [trimEnd, dropEnd, hdrop, List.reverse_reverse]

/-- A text is trimmed by its first part and its last. -/
theorem trimmed_append {cs ds : List Char} (hcs : cs ≠ []) (hds : ds ≠ [])
    (hhead : ∀ c ∈ cs.head?, isBlank c = false) (hlast : ∀ c ∈ ds.getLast?, isBlank c = false) :
    Trimmed (cs ++ ds) := by
  constructor
  · rwa [List.head?_append_of_ne_nil _ hcs]
  · rwa [List.getLast?_append_of_ne_nil _ hds]

theorem trimmed_cons_concat {c d : Char} (hc : isBlank c = false) (hd : isBlank d = false)
    (cs : List Char) : Trimmed (c :: (cs ++ [d])) := by
  constructor
  · simpa using hc
  · rw [← List.cons_append, List.getLast?_concat]
    simpa using hd

/-! ### Places inside a longer text -/

namespace Cursor

theorem skipWhile_run (hw : ∀ c ∈ w, p c = true) (hs : ∀ d ∈ s.head?, p d = false) (n : Nat) :
    (⟨n, w ++ s⟩ : Cursor).skipWhile p = ⟨n + w.length, s⟩ := by
  simp only [skipWhile, takeWhile_run hw hs, dropWhile_run hw hs]

/-- The place of a text that stands `before` characters on, in front of `tail`. -/
def within (before : Nat) (tail : List Char) (c : Cursor) : Cursor :=
  ⟨c.position + before, c.rest ++ tail⟩

@[simp] theorem within_mk (before : Nat) (tail : List Char) (p : Nat) (cs : List Char) :
    (⟨p, cs⟩ : Cursor).within before tail = ⟨p + before, cs ++ tail⟩ := rfl

@[simp] theorem within_rest (before : Nat) (tail : List Char) (c : Cursor) :
    (c.within before tail).rest = c.rest ++ tail := rfl

/-- Skipping no more than the text is skipping inside the longer one. -/
theorem skip_within {n : Nat} {c : Cursor} (h : n ≤ c.rest.length) (before : Nat)
    (tail : List Char) : (c.within before tail).skip n = (c.skip n).within before tail := by
  have hlonger : n ≤ (c.rest ++ tail).length := Nat.le_trans h (by simp)
  simp only [skip, within, Nat.min_eq_left h, Nat.min_eq_left hlonger,
    List.drop_append_of_le_length h, Nat.add_right_comm]

/-- The place after a space, if one comes next. -/
def pastSpace : Cursor → Cursor
  | ⟨p, ' ' :: cs⟩ => ⟨p + 1, cs⟩
  | c => c

@[simp] theorem pastSpace_space (p : Nat) (cs : List Char) :
    pastSpace ⟨p, ' ' :: cs⟩ = ⟨p + 1, cs⟩ := rfl

theorem pastSpace_eq_self {c : Cursor} (h : ' ' ∉ c.rest.head?) : c.pastSpace = c := by
  unfold pastSpace
  split
  · simp at h
  · rfl

theorem pastSpace_within {before : Nat} {tail : List Char} (h : ' ' ∉ tail.head?) (c : Cursor) :
    (c.within before tail).pastSpace = c.pastSpace.within before tail := by
  obtain ⟨p, cs⟩ := c
  cases cs with
  | nil => exact pastSpace_eq_self h
  | cons d cs =>
      by_cases hd : d = ' '
      · subst hd
        simp only [within_mk, List.cons_append, pastSpace_space, Nat.add_right_comm]
      · rw [pastSpace_eq_self (by simp [within, hd]), pastSpace_eq_self (by simp [hd])]

/-- Skipping over a text and over a space after it. -/
theorem skip_pastSpace (p : Nat) (cs rest : List Char) :
    (⟨p, cs ++ rest⟩ : Cursor).skip
        (if rest.head? = some ' ' then cs.length + 1 else cs.length) =
      pastSpace ⟨p + cs.length, rest⟩ := by
  cases rest with
  | nil => simp [skip, pastSpace]
  | cons d rest =>
      by_cases hd : d = ' '
      · subst hd
        simp [skip, List.drop_append, Nat.add_assoc]
      · rw [pastSpace_eq_self (by simp [hd])]
        simp [skip, hd]

end Cursor

end ScimQuery.Text
