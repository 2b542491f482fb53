import ScimQuery.Proofs.Error.Places

/-!
# Error — errors further on in a text

When text is put in front of a text, every place in it moves on by as many characters, and so do
the places that an error names (`Error.shift`).  What an error says beside its place stays: the
error inside a word is counted from the start of the word, and the wording of a refused value
tells of the value alone.

* `shifted`: the outcome of a reader with its result and its error moved.
* `shifted_bind`: readers in a row move if each of them does.
* `shifted_of_located`, `bind_shifted`: an outcome that points into every text is no matter of
  places.
-/

namespace ScimQuery

open Text (Cursor)

/-- The place `k` characters further on. -/
def Text.Cursor.shift (k : Nat) (c : Cursor) : Cursor :=
  ⟨c.position + k, c.rest⟩

@[simp] theorem Text.Cursor.shift_mk (k p : Nat) (cs : List Char) :
    Cursor.shift k ⟨p, cs⟩ = ⟨p + k, cs⟩ := rfl

@[simp] theorem Text.Cursor.shift_rest (k : Nat) (c : Cursor) : (c.shift k).rest = c.rest := rfl

@[simp] theorem Text.Cursor.shift_position (k : Nat) (c : Cursor) :
    (c.shift k).position = c.position + k := rfl

theorem Text.Cursor.skip_shift (k n : Nat) (c : Cursor) :
    (c.shift k).skip n = (c.skip n).shift k := by
  simp only [Cursor.skip, Cursor.shift, Nat.add_right_comm]

namespace Error

/-- The error about a place `k` characters further on. -/
def shift (k : Nat) : Error → Error
  | unexpectedCharacter c position tokenStart =>
    unexpectedCharacter c (position + k) (tokenStart + k)
  | attributeNameExpected position => attributeNameExpected (position + k)
  | openParenExpected position => openParenExpected (position + k)
  | unmatchedCloseParen position => unmatchedCloseParen (position + k)
  | unclosedBracket position => unclosedBracket (position + k)
  | unexpectedToken token position => unexpectedToken token (position + k)
  | unknownOperator operator position suggestion =>
    unknownOperator operator (position + k) suggestion
  | invalidValue position reason => invalidValue (position + k) reason
  | invalidAttributePath position source => invalidAttributePath (position + k) source
  | unexpectedEndOfFilter => unexpectedEndOfFilter
  | unexpectedEndOfPath => unexpectedEndOfPath
  | tooFewOperands count => tooFewOperands count
  | inputTooLong length max => inputTooLong length max
  | nestingTooDeep max => nestingTooDeep max

/-- An error that names no place stays as it is. -/
theorem shift_of_places_nil {k : Nat} {e : Error} (h : e.places = []) : e.shift k = e := by
  cases e <;> first | rfl | cases h

end Error

variable {α β γ δ : Type} {k : Nat}

/-- The outcome of a reader `k` characters further on: the result as `g` moves it, or the error
about the place that far on. -/
def shifted (k : Nat) (g : α → β) : Except Error α → Except Error β
  | .ok a => .ok (g a)
  | .error e => .error (e.shift k)

@[simp] theorem shifted_ok (g : α → β) (a : α) : shifted k g (.ok a) = .ok (g a) := rfl

@[simp] theorem shifted_error (g : α → β) (e : Error) :
    shifted k g (.error e) = .error (e.shift k) := rfl

/-- Readers in a row move if each of them does. -/
theorem shifted_bind {g : α → β} {g' : γ → δ} {x : Except Error α} {f : α → Except Error γ}
    {f' : β → Except Error δ} (h : ∀ a, x = .ok a → f' (g a) = shifted k g' (f a)) :
    shifted k g x >>= f' = shifted k g' (x >>= f) := by
  cases x with
  | error e => rfl
  | ok a => exact h a rfl

/-- What points into the empty text names no place. -/
theorem Located.places_eq_nil {limits : Limits} {P : α → Prop} {x : Except Error α} {e : Error}
    (h : Located limits [] P x) (hx : x = .error e) : e.places = [] :=
  List.eq_nil_iff_forall_not_mem.mpr fun p hp => Nat.not_lt_zero p ((h.error hx).inside p hp)

/-- What points into every text, the empty one too, does not move. -/
theorem shifted_of_located {P : α → Prop} {x : Except Error α}
    (h : ∀ limits, Located limits [] P x) : shifted k id x = x := by
  cases x with
  | ok a => rfl
  | error e => rw [shifted_error, Error.shift_of_places_nil ((h {}).places_eq_nil rfl)]

/-- A reader behind one that is no matter of places. -/
theorem bind_shifted {P : α → Prop} {x : Except Error α} {g : γ → δ} {f : α → Except Error γ}
    {f' : α → Except Error δ} (hx : ∀ limits, Located limits [] P x)
    (h : ∀ a, f' a = shifted k g (f a)) : x >>= f' = shifted k g (x >>= f) := by
  have hbind : shifted k id x >>= f' = shifted k g (x >>= f) := shifted_bind fun a _ => h a
  rwa [shifted_of_located hx] at hbind

end ScimQuery
