import Mathlib.Data.List.Basic
import Seeing.Failure
import Seeing.Scalar

/-!
# Chains of checks

Settings are built by checks one after the other, each of which may stop with its
error. That a chain of checks gives a value comes apart into what every step of it gives.
-/

namespace Seeing

section Chain

variable {ε β γ : Type}

theorem throw_eq_ok_iff {e : ε} {b : β} : (throw e : Except ε β) = .ok b ↔ False := by
  constructor
  · intro h
    cases h
  · exact False.elim

theorem pure_eq_ok_iff {a b : β} : (pure a : Except ε β) = .ok b ↔ a = b := by
  change (Except.ok a : Except ε β) = .ok b ↔ a = b
  rw [Except.ok.injEq]

theorem bind_eq_ok_iff {x : Except ε β} {f : β → Except ε γ} {c : γ} :
    x >>= f = .ok c ↔ ∃ b, x = .ok b ∧ f b = .ok c := by
  cases x with
  | error e =>
      constructor
      · intro h
        cases h
      · rintro ⟨b, h, -⟩
        cases h
  | ok b => simp [bind, Except.bind]

theorem mapError_eq_ok_iff {ε' : Type} {x : Except ε β} {f : ε → ε'} {b : β} :
    x.mapError f = .ok b ↔ x = .ok b := by
  cases x <;> simp [Except.mapError]

theorem Failure.ofExcept_eq_ok_iff {x : Except ε β} {b : β} :
    Failure.ofExcept x = .ok b ↔ x = .ok b := by
  cases x <;> simp [ofExcept]

end Chain

theorem find?_not_positive_eq_none_iff {α ι : Type} [Scalar α] (xs : List (ι × α)) :
    (xs.find? fun (_, value) => !(0 < value)) = none ↔ ∀ x ∈ xs, 0 < x.2 := by
  simp

theorem find?_not_positive_eq_some_or_none {α ι : Type} [Scalar α] (xs : List (ι × α)) :
    (∃ x, (xs.find? fun (_, value) => !(0 < value)) = some x) ∨
      (xs.find? fun (_, value) => !(0 < value)) = none :=
  (Option.eq_none_or_eq_some _).symm

end Seeing
