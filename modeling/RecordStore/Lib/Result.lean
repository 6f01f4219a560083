import Mathlib

/-!
# Lib.Result — computations that end in a value

What is known of the parts of a fallible computation that succeeds.
-/

namespace RecordStore.Lib

theorem ok_bind {ε α β : Type} (a : α) (f : α → Except ε β) : (.ok a : Except ε α) >>= f = f a := rfl

theorem bind_eq_ok {ε α β : Type} {a : Except ε α} {f : α → Except ε β} {b : β} :
    a >>= f = .ok b ↔ ∃ y, a = .ok y ∧ f y = .ok b := by
  constructor
  · intro h
    cases a with
    | error e => cases h
    | ok y => exact ⟨y, rfl, h⟩
  · rintro ⟨y, rfl, h⟩
    exact h

/-- A guard that refuses. -/
theorem ite_error_eq_ok {ε α : Type} {p : Prop} [Decidable p] {e : ε} {a : Except ε α} {b : α} :
    (if p then .error e else a) = .ok b ↔ ¬ p ∧ a = .ok b := by
  by_cases h : p
  · rw [if_pos h]
    exact ⟨fun hb => (by cases hb), fun hb => absurd h hb.1⟩
  · rw [if_neg h, and_iff_right h]

theorem mapError_eq_ok {ε ε' α : Type} {a : Except ε α} {f : ε → ε'} {b : α} : a.mapError f = .ok b ↔ a = .ok b := by
  cases a with
  | error e => simp [Except.mapError]
  | ok y => simp [Except.mapError]

/-! ## Deciding what a computation ends in -/

section Decidable

variable {ε α : Type} {p q r : α → Prop}

instance decidableExistsSome [DecidablePred p] : ∀ o : Option α, Decidable (∃ a, o = some a ∧ p a)
  | none => isFalse nofun
  | some a => decidable_of_iff (p a) ⟨fun h => ⟨a, rfl, h⟩, fun ⟨_, e, h⟩ => Option.some.inj e ▸ h⟩

instance decidableExistsOk [DecidablePred p] : ∀ x : Except ε α, Decidable (∃ a, x = .ok a ∧ p a)
  | .error _ => isFalse nofun
  | .ok a => decidable_of_iff (p a) ⟨fun h => ⟨a, rfl, h⟩, fun ⟨_, e, h⟩ => Except.ok.inj e ▸ h⟩

/-- What is decided of a value, together with what is proved of it. -/
theorem exists_and_of (h : ∃ a, p a ∧ q a) (hr : ∀ a, p a → q a → r a) : ∃ a, p a ∧ q a ∧ r a := by
  obtain ⟨a, hp, hq⟩ := h
  exact ⟨a, hp, hq, hr a hp hq⟩

end Decidable

end RecordStore.Lib
