/-!
# Sources of randomness

All randomness is drawn from the state of a seeded source, which a draw hands on. `RandomSource α`
says what can be drawn: words of sixty four bits, values uniform between zero and one, and normal
deviates. The simulation is written for any source; the one that runs is in `Seeing.Random.Source`.
-/

namespace Seeing

/-- A seeded source of words and of deviates of type `α`. -/
class RandomSource (α : Type) where
  /-- The state of the source. -/
  State : Type
  /-- The state at the start of the stream of a seed. -/
  ofSeed : UInt64 → State
  /-- Draws a word. -/
  word : StateM State UInt64
  /-- Draws a value from zero inclusive to one exclusive. -/
  uniform : StateM State α
  /-- Draws a deviate of mean zero and variance one. -/
  normal : StateM State α

/-- The values of `n` draws, in the order of the draws. -/
def drawMany {σ β : Type} (n : Nat) (draw : StateM σ β) : StateM σ (Array β) := fun s =>
  Nat.fold n (fun _ _ (values, s) => ((values.push (draw s).1), (draw s).2)) (#[], s)

variable {σ β : Type} (draw : StateM σ β)

theorem drawMany_succ (n : Nat) (s : σ) :
    drawMany (n + 1) draw s =
      ((drawMany n draw s).1.push (draw (drawMany n draw s).2).1,
        (draw (drawMany n draw s).2).2) := rfl

@[simp] theorem size_drawMany (n : Nat) (s : σ) : (drawMany n draw s).1.size = n := by
  induction n with
  | zero => rfl
  | succ n ih => rw [drawMany_succ]; simp [ih]

end Seeing
