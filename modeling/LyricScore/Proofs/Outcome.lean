/-
  This file holds lemmas about outcomes: values, or errors
  that end all further steps.

  Key definitions include:
    * `Outcome.Like`

  Key theorems include:
    * `Outcome.bind_eq_ok`, `Outcome.bind_eq_error`
    * `Outcome.map_eq_ok`
    * `Outcome.mapError_eq_ok`
    * `Outcome.exists_eq_ok`
    * `Outcome.exists_bind_iff`
    * `Outcome.Like.map`
-/

namespace LyricScore

namespace Outcome

variable {ε δ α β : Type}

@[simp] theorem ok_bind
    (a : α)
    (f : α → Except ε β) :
    (Except.ok a >>= f) = f a := rfl

@[simp] theorem error_bind
    (e : ε)
    (f : α → Except ε β) :
    (Except.error e >>= f) = .error e := rfl

@[simp] theorem pure_eq
    (a : α) :
    (pure a : Except ε α) = .ok a := rfl

@[simp] theorem throw_eq
    (e : ε) :
    (throw e : Except ε α) = .error e := rfl

@[simp] theorem map_ok
    (f : α → β)
    (a : α) :
    (Except.ok a : Except ε α).map f = .ok (f a) := rfl

@[simp] theorem map_error
    (f : α → β)
    (e : ε) :
    (Except.error e : Except ε α).map f = .error e := rfl

@[simp] theorem mapError_ok
    (f : ε → δ)
    (a : α) :
    (Except.ok a : Except ε α).mapError f = .ok a := rfl

@[simp] theorem mapError_error
    (f : ε → δ)
    (e : ε) :
    (Except.error e : Except ε α).mapError f =
      .error (f e) :=
  rfl

/-
  Two steps succeed if the first does, and the
  second with its value.
-/
theorem bind_eq_ok
    {x : Except ε α}
    {f : α → Except ε β}
    {b : β} :
    x >>= f = .ok b ↔ ∃ a, x = .ok a ∧ f a = .ok b := by
  cases x <;> simp

/-
  Two steps fail if the first does, or the
  second with its value.
-/
theorem bind_eq_error
    {x : Except ε α}
    {f : α → Except ε β}
    {e : ε} :
    x >>= f = .error e ↔
      x = .error e ∨ ∃ a, x = .ok a ∧ f a = .error e := by
  cases x <;> simp

theorem map_eq_ok
    {x : Except ε α}
    {f : α → β}
    {b : β} :
    x.map f = .ok b ↔ ∃ a, x = .ok a ∧ f a = b := by
  cases x <;> simp

theorem map_eq_error
    {x : Except ε α}
    {f : α → β}
    {e : ε} :
    x.map f = .error e ↔ x = .error e := by
  cases x <;> simp

/- An outcome whose error is renamed succeeds as it did. -/
theorem mapError_eq_ok
    {x : Except ε α}
    {f : ε → δ}
    {a : α} :
    x.mapError f = .ok a ↔ x = .ok a := by
  cases x <;> simp

/- A renamed error comes from an error. -/
theorem mapError_eq_error
    {x : Except ε α}
    {f : ε → δ}
    {d : δ} :
    x.mapError f = .error d ↔ ∃ e, x = .error e ∧ f e = d := by
  cases x <;> simp

theorem map_map
    {γ : Type}
    (x : Except ε α)
    (f : α → β)
    (g : β → γ) :
    (x.map f).map g = x.map (g ∘ f) := by
  cases x <;> rfl

/- Values and errors become others in either order. -/
theorem mapError_map
    (x : Except ε α)
    (f : α → β)
    (g : ε → δ) :
    (x.map f).mapError g = (x.mapError g).map f := by
  cases x <;> rfl

/-
  Two steps succeed if each does, where the second does not
  depend on the first.
-/
theorem exists_bind_iff
    {x : Except ε α}
    {f : α → Except ε β}
    {P Q : Prop}
    (hFirst : (∃ a, x = .ok a) ↔ P)
    (hThen : ∀ a, x = .ok a → ((∃ b, f a = .ok b) ↔ Q)) :
    (∃ b, x >>= f = .ok b) ↔ P ∧ Q := by
  rw [← hFirst]
  constructor
  · rintro ⟨b, hBoth⟩
    rcases bind_eq_ok.mp hBoth with ⟨a, hValue, hResult⟩
    exact ⟨⟨a, hValue⟩, (hThen a hValue).mp ⟨b, hResult⟩⟩
  · rintro ⟨⟨a, hValue⟩, hQ⟩
    rcases (hThen a hValue).mpr hQ with ⟨b, hResult⟩
    exact ⟨b, bind_eq_ok.mpr ⟨a, hValue, hResult⟩⟩

/- A step that is followed by one that never fails. -/
theorem exists_bind_of_total
    {x : Except ε α}
    {f : α → Except ε β}
    (hTotal : ∀ a, ∃ b, f a = .ok b) :
    (∃ b, x >>= f = .ok b) ↔ ∃ a, x = .ok a := by
  rw [exists_bind_iff Iff.rfl fun a _ =>
      iff_true_intro (hTotal a), and_true]

theorem exists_map_eq_ok
    {x : Except ε α}
    {f : α → β} :
    (∃ b, x.map f = .ok b) ↔ ∃ a, x = .ok a := by
  cases x <;> simp

theorem exists_mapError_eq_ok
    {x : Except ε α}
    {f : ε → δ} :
    (∃ a, x.mapError f = .ok a) ↔ ∃ a, x = .ok a := by
  cases x <;> simp

theorem exists_eq_ok
    {x : Except ε α}
    (hOk : x.isOk = true) :
    ∃ a, x = .ok a := by
  cases x with
  | error e =>
      cases hOk
  | ok a =>
      exact ⟨a, rfl⟩

------------------------------------------------------------
-- Outcomes that are alike
------------------------------------------------------------

/-
  Two outcomes that are both values or both errors, and
  related as such.
-/
inductive Like
    {ε δ α β : Type}
    (E : ε → δ → Prop)
    (R : α → β → Prop) : Except ε α → Except δ β → Prop where
  | ok {a : α} {b : β} (hValues : R a b) :
      Like E R (.ok a) (.ok b)
  | error {e : ε} {d : δ} (hErrors : E e d) :
      Like E R (.error e) (.error d)

namespace Like

variable {ε δ α β α' β' : Type}
variable {E : ε → δ → Prop} {R : α → β → Prop}
  {S : α' → β' → Prop}
variable {x : Except ε α} {y : Except δ β}

theorem map
    {k : α → α'}
    {l : β → β'}
    (hLike : Like E R x y)
    (hThen : ∀ a b, R a b → S (k a) (l b)) :
    Like E S (x.map k) (y.map l) := by
  cases hLike with
  | ok hValues =>
      exact .ok (hThen _ _ hValues)
  | error hErrors =>
      exact .error hErrors

theorem imp
    {T : α → β → Prop}
    (hLike : Like E R x y)
    (hThen : ∀ a b, R a b → T a b) :
    Like E T x y := by
  cases hLike with
  | ok hValues =>
      exact .ok (hThen _ _ hValues)
  | error hErrors =>
      exact .error hErrors

end Like

end Outcome

end LyricScore
