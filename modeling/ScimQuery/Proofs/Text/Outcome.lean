/-!
# Text — outcomes of readers

A reader gives a result or an error.  What two readers in a row give is decided by the first,
and by the second where the first gives a result (`bind_eq_ok_iff`).  Where it matters only
whether there is a result, and not which error there is otherwise, the outcome is taken as an
option; where it matters only which errors there are, the reader is one that refuses for causes of
a kind (`RefusesFor`).
-/

namespace ScimQuery.Text

variable {ε α β : Type} {x : Except ε α} {f : α → Except ε β} {a : α} {b : β}

theorem bind_eq_ok_iff : x >>= f = .ok b ↔ ∃ a, x = .ok a ∧ f a = .ok b := by
  cases x with
  | error e =>
      constructor
      · intro h
        cases h
      · rintro ⟨a, h, -⟩
        cases h
  | ok a =>
      constructor
      · intro h
        exact ⟨a, rfl, h⟩
      · rintro ⟨_, h, hf⟩
        cases h
        exact hf

theorem map_eq_ok_iff {g : α → β} : g <$> x = .ok b ↔ ∃ a, x = .ok a ∧ g a = b := by
  cases x <;> simp [Functor.map, Except.map]

theorem map_eq_error_iff {g : α → β} {e : ε} : g <$> x = .error e ↔ x = .error e := by
  cases x <;> simp [Functor.map, Except.map]

theorem map_injective {g : α → β} (hg : Function.Injective g) {y : Except ε α}
    (h : g <$> x = g <$> y) : x = y := by
  cases x with
  | error e => exact (map_eq_error_iff.mp h.symm).symm
  | ok a =>
      obtain ⟨b, rfl, hb⟩ := map_eq_ok_iff.mp h.symm
      rw [hg hb]

theorem toOption_eq_some_iff : x.toOption = some a ↔ x = .ok a := by
  cases x <;> simp [Except.toOption]

theorem toOption_bind : (x >>= f).toOption = x.toOption.bind fun a => (f a).toOption := by
  cases x <;> rfl

/-- The error of a reader that gives no result. -/
def refusal? : Except ε α → Option ε
  | .ok _ => none
  | .error e => some e

theorem refusal?_eq_some_iff {e : ε} : refusal? x = some e ↔ x = .error e := by
  cases x <;> simp [refusal?]

/-! ### The causes of refusal -/

/-- The reader refuses for causes of a kind only. -/
def RefusesFor (P : ε → Prop) (x : Except ε α) : Prop :=
  ∀ e, x = .error e → P e

variable {P Q : ε → Prop}

theorem refusesFor_ok (a : α) : RefusesFor P (.ok a : Except ε α) := by
  intro e h
  cases h

theorem refusesFor_error {e : ε} (h : P e) : RefusesFor P (.error e : Except ε α) := by
  rintro _ ⟨⟩
  exact h

theorem RefusesFor.mono (h : RefusesFor P x) (hPQ : ∀ e, P e → Q e) : RefusesFor Q x :=
  fun e he => hPQ e (h e he)

theorem RefusesFor.bind (hx : RefusesFor P x) (hf : ∀ a, x = .ok a → RefusesFor P (f a)) :
    RefusesFor P (x >>= f) := by
  cases x with
  | error e => exact refusesFor_error (hx e rfl)
  | ok a => exact hf a rfl

end ScimQuery.Text
