import ScimQuery.Proofs.Text.Runs

/-!
# Text — readers that do not look past what they take

A reader goes from a place to a later one.  It is local (`Local`) when the text behind this later
place does not matter: another text may stand there, as long as it starts alike or with a
character that ends whatever is in front of it (`Replaces`).  A space that ends a word is taken
along with it, so that the reader may come to the place after this space (`Lands`).

Local readers in a row are local (`Local.trans`).
-/

namespace ScimQuery.Text

/-- The text `s` may stand where `rest` stands: it starts alike, or with a space or a closing
parenthesis, if it is not empty. -/
def Replaces (s rest : List Char) : Prop :=
  s.head? = rest.head? ∨ ∀ d ∈ s.head?, d = ' ' ∨ d = ')'

/-- The place that a reader comes to where `s` stands at `p` in place of `rest`. -/
def Lands (rest s : List Char) (p : Nat) (next : Cursor) : Prop :=
  next = ⟨p, s⟩ ∨ s.head? ≠ rest.head? ∧ next = Cursor.pastSpace ⟨p, s⟩

/-- The reader takes the text between the two places, and does so whatever stands behind it. -/
def Local (reads : Cursor → Cursor → Prop) (c after : Cursor) : Prop :=
  ∃ w, w ≠ [] ∧ c.rest = w ++ after.rest ∧ after.position = c.position + w.length ∧
    ∀ s, Replaces s after.rest →
      ∃ next, Lands after.rest s after.position next ∧ reads ⟨c.position, w ++ s⟩ next

/-- What comes first decides how two texts start. -/
theorem replaces_append {w : List Char} (hw : w ≠ []) (s rest : List Char) :
    Replaces (w ++ s) (w ++ rest) :=
  .inl (by rw [List.head?_append_of_ne_nil _ hw, List.head?_append_of_ne_nil _ hw])

theorem replaces_space (s rest : List Char) : Replaces (' ' :: s) rest := by
  right
  rintro d ⟨⟩
  exact .inl rfl

/-- A space may stand behind what comes first. -/
theorem replaces_append_space (v s t : List Char) : Replaces (v ++ ' ' :: t) (v ++ s) := by
  cases v with
  | nil => exact replaces_space t s
  | cons c v => exact .inl rfl

variable {reads reads' : Cursor → Cursor → Prop} {c mid after next : Cursor} {rest s : List Char}
  {p : Nat}

/-- Where the text starts alike, the reader comes to its place itself. -/
theorem Lands.eq (h : Lands rest s p next) (hhead : s.head? = rest.head?) : next = ⟨p, s⟩ :=
  h.resolve_right fun h => h.1 hhead

/-- To a reader that skips spaces anyway, the place is that of the text. -/
theorem Lands.apply_eq {α : Type} {f : Cursor → α} (hf : ∀ c : Cursor, f c.pastSpace = f c)
    (h : Lands rest s p next) : f next = f ⟨p, s⟩ := by
  rcases h with rfl | ⟨-, rfl⟩
  · rfl
  · exact hf _

theorem Local.mono (h : Local reads c after) (himp : ∀ x y, reads x y → reads' x y) :
    Local reads' c after := by
  obtain ⟨w, hne, hrest, hposition, hw⟩ := h
  refine ⟨w, hne, hrest, hposition, ?_⟩
  intro s hs
  obtain ⟨next, hnext, hread⟩ := hw s hs
  exact ⟨next, hnext, himp _ _ hread⟩

/-- A reader that takes the text `w`, and nothing more. -/
theorem Local.of_append {w : List Char} (hne : w ≠ [])
    (h : ∀ s, Replaces s rest → reads ⟨p, w ++ s⟩ ⟨p + w.length, s⟩) :
    Local reads ⟨p, w ++ rest⟩ ⟨p + w.length, rest⟩ :=
  ⟨w, hne, rfl, rfl, fun s hs => ⟨_, .inl rfl, h s hs⟩⟩

/-- A reader that takes the text `w`, and a space behind it. -/
theorem Local.of_pastSpace {w : List Char} (hne : w ≠ [])
    (h : ∀ s, Replaces s rest → reads ⟨p, w ++ s⟩ (Cursor.pastSpace ⟨p + w.length, s⟩)) :
    Local reads ⟨p, w ++ rest⟩ (Cursor.pastSpace ⟨p + w.length, rest⟩) := by
  by_cases hspace : ' ' ∈ rest.head?
  · -- the space is part of what is taken
    obtain ⟨more, rfl⟩ := List.head?_eq_some_iff.mp hspace
    have hread (s : List Char) : reads ⟨p, (w ++ [' ']) ++ s⟩ ⟨p + (w ++ [' ']).length, s⟩ := by
      have := h (' ' :: s) (replaces_space s _)
      rwa [Cursor.pastSpace_space, Nat.add_assoc, List.append_cons, ← List.length_singleton,
        ← List.length_append] at this
    have hlocal : Local reads ⟨p, (w ++ [' ']) ++ more⟩ ⟨p + (w ++ [' ']).length, more⟩ :=
      .of_append (by simp) fun s _ => hread s
    rwa [List.append_assoc, List.length_append, ← Nat.add_assoc] at hlocal
  · rw [Cursor.pastSpace_eq_self hspace]
    refine ⟨w, hne, rfl, rfl, ?_⟩
    intro s hs
    refine ⟨_, ?_, h s hs⟩
    by_cases hhead : s.head? = rest.head?
    · exact .inl (Cursor.pastSpace_eq_self (by rwa [hhead]))
    · exact .inr ⟨hhead, rfl⟩

/-- **Local readers in a row are local**: each takes something, so that the first one is in front
of the same character whatever stands behind the second. -/
theorem Local.trans (h : Local reads c mid) (h' : Local reads' mid after) :
    Local (fun x z => ∃ y, reads x y ∧ reads' y z) c after := by
  obtain ⟨v, hv, hrest, hposition, hread⟩ := h
  obtain ⟨w, hw, hrest', hposition', hread'⟩ := h'
  refine ⟨v ++ w, by simp [hv], by rw [hrest, hrest', List.append_assoc], ?_, ?_⟩
  · rw [hposition', hposition, List.length_append, Nat.add_assoc]
  · intro s hs
    obtain ⟨z, hz, hreadz⟩ := hread' s hs
    have halike : Replaces (w ++ s) mid.rest := hrest' ▸ replaces_append hw s after.rest
    have hhead : (w ++ s).head? = mid.rest.head? := by
      rw [hrest', List.head?_append_of_ne_nil _ hw, List.head?_append_of_ne_nil _ hw]
    obtain ⟨y, hy, hready⟩ := hread (w ++ s) halike
    obtain rfl := hy.eq hhead
    rw [List.append_assoc]
    exact ⟨z, hz, _, hready, hreadz⟩

end ScimQuery.Text
