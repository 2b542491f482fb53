import ScimQuery.Proofs.Text.Runs
import ScimQuery.View.Caret

/-!
# View — text without its colours

A colour escape sequence is an escape character and a bracket, numbers with semicolons between
them, and an `m`.  Deleting those of a painted text (`uncoloured`) gives the text: a text `Shows`
another one if it is this one, without colours, in front of whatever follows.

* `Shows.append`: two texts in a row.
* `shows_plain`, `shows_paint`: a text without escape character shows itself, painted or not.
-/

namespace ScimQuery.View

/-- May the character stand between the bracket of a colour escape sequence and its end? -/
def isParameter (c : Char) : Bool :=
  c.isDigit || c == ';'

/-- What follows the colour escape sequence at the start of a text, if there is one. -/
def afterEscape? : List Char → Option (List Char)
  | '\x1b' :: '[' :: cs =>
      match cs.dropWhile isParameter with
      | 'm' :: rest => some rest
      | _ => none
  | _ => none

variable {cs rest v v' w w' : List Char} {c : Char}

theorem length_of_afterEscape? (h : afterEscape? cs = some rest) : rest.length < cs.length := by
  unfold afterEscape? at h
  split at h
  · rename_i more
    split at h
    · rename_i hdrop
      cases h
      have hlength := (List.dropWhile_sublist (l := more) isParameter).length_le
      rw [hdrop, List.length_cons] at hlength
      simp only [List.length_cons]
      omega
    · cases h
  · cases h

/-- The text without its colour escape sequences. -/
def uncoloured (cs : List Char) : List Char :=
  match h : afterEscape? cs with
  | some rest =>
      have _ := length_of_afterEscape? h
      uncoloured rest
  | none =>
      match cs with
      | [] => []
      | c :: more => c :: uncoloured more
termination_by cs.length

theorem uncoloured_of_escape (h : afterEscape? cs = some rest) :
    uncoloured cs = uncoloured rest := by
  rw [uncoloured]
  split
  · rename_i h'
    rw [h] at h'
    cases h'
    rfl
  · rename_i h'
    rw [h] at h'
    cases h'

@[simp] theorem uncoloured_nil : uncoloured [] = [] := by
  rw [uncoloured]
  rfl

theorem uncoloured_cons (h : c ≠ '\x1b') (cs : List Char) :
    uncoloured (c :: cs) = c :: uncoloured cs := by
  have hnone : afterEscape? (c :: cs) = none := by
    unfold afterEscape?
    split
    · rename_i hc
      exact absurd (List.cons.inj hc).1 h
    · rfl
  rw [uncoloured]
  split
  · rename_i h'
    rw [hnone] at h'
    cases h'
  · rfl

/-- Without its colours, the first text is the second one, whatever follows it. -/
def Shows (w v : List Char) : Prop :=
  ∀ rest, uncoloured (w ++ rest) = v ++ uncoloured rest

theorem Shows.uncoloured (h : Shows w v) : uncoloured w = v := by
  simpa using h []

theorem Shows.append (h : Shows w v) (h' : Shows w' v') : Shows (w ++ w') (v ++ v') := by
  intro rest
  rw [List.append_assoc, h, h', List.append_assoc]

theorem Shows.cons (h : Shows w v) (hc : c ≠ '\x1b') : Shows (c :: w) (c :: v) := by
  intro rest
  rw [List.cons_append, uncoloured_cons hc, h, List.cons_append]

theorem shows_plain (h : '\x1b' ∉ w) : Shows w w := by
  induction w with
  | nil => exact fun _ => rfl
  | cons c w ih =>
      rw [List.mem_cons, not_or] at h
      exact (ih h.2).cons (Ne.symm h.1)

/-- An escape sequence shows nothing. -/
theorem shows_escape {code : String} (h : code.toList.all isParameter = true) :
    Shows (escape code) [] := by
  intro rest
  have hm : isParameter 'm' = false := rfl
  have hdrop : (code.toList ++ 'm' :: rest).dropWhile isParameter = 'm' :: rest :=
    Text.dropWhile_run (List.all_eq_true.mp h) (by simpa using hm)
  refine uncoloured_of_escape ?_
  show afterEscape? ('\x1b' :: '[' :: ((code.toList ++ ['m']) ++ rest)) = some rest
  rw [List.append_assoc, List.singleton_append, afterEscape?, hdrop]
  rfl

/-- **Paint shows the text that is painted.** -/
theorem shows_paint (colours : Bool) (colour : Colour) (h : '\x1b' ∉ w) :
    Shows (paint colours colour w) w := by
  have hbold : Shows (escape "1") [] := shows_escape (by decide)
  have hcolour : Shows (escape colour.code) [] := shows_escape (by cases colour <;> decide)
  have hdefault : Shows (escape "39") [] := shows_escape (by decide)
  have hreset : Shows (escape "0") [] := shows_escape (by decide)
  cases colours with
  | false => exact shows_plain h
  | true =>
      have hall := (((hbold.append hcolour).append (shows_plain h)).append hdefault).append hreset
      simpa only [paint, if_true, List.nil_append, List.append_nil] using hall

end ScimQuery.View
