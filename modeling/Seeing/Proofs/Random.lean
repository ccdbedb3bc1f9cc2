import Seeing.Proofs.Real
import Seeing.Random

/-!
# Streams of deviates

A state of a source fixes all deviates that are drawn from it, one after the other. So many draws
are the first ones of a longer series, `toList_drawMany`.
-/

namespace Seeing

section Draws

variable {σ β : Type} (draw : StateM σ β)

/-- What is drawn after `k` others. -/
def drawAt (s : σ) (k : ℕ) : β := (draw (drawMany k draw s).2).1

theorem toList_drawMany (n : ℕ) (s : σ) :
    (drawMany n draw s).1.toList = (List.range n).map (drawAt draw s) := by
  induction n with
  | zero => rfl
  | succ n ih =>
      rw [drawMany_succ, Array.toList_push, ih, List.range_succ, List.map_append]
      rfl

end Draws

namespace RandomSource

variable {α : Type} [RandomSource α]

/-- The state after a number of uniform draws. -/
def afterUniforms (s : State α) : ℕ → State α
  | 0 => s
  | n + 1 => (uniform (afterUniforms s n)).2

/-- The uniform deviate that is drawn after `n` others. -/
def uniformAt (s : State α) (n : ℕ) : α := (uniform (afterUniforms s n)).1

/-- Every uniform deviate of the stream lies between zero, included, and one. -/
def IsUniform [RandomSource ℝ] (s : State ℝ) : Prop :=
  ∀ n, 0 ≤ uniformAt s n ∧ uniformAt s n < 1

end RandomSource

/-- A source that counts. -/
@[reducible] noncomputable def countingSource : RandomSource ℝ where
  State := ℕ
  ofSeed := UInt64.toNat
  word n := (.ofNat n, n + 1)
  uniform n := (Int.fract (n / 10), n + 1)
  normal n := (n, n + 1)

theorem isUniform_countingSource (s : ℕ) : @RandomSource.IsUniform countingSource s := by
  intro n
  exact ⟨Int.fract_nonneg _, Int.fract_lt_one _⟩

theorem uniformAt_countingSource (s n : ℕ) :
    @RandomSource.uniformAt ℝ countingSource s n = Int.fract (((s + n : ℕ) : ℝ) / 10) := by
  have hafter : @RandomSource.afterUniforms ℝ countingSource s n = (s + n : ℕ) := by
    induction n with
    | zero => rfl
    | succ n ih => exact congrArg Nat.succ ih
  exact congrArg (fun m : ℕ => Int.fract ((m : ℝ) / 10)) hafter

end Seeing
