import Seeing.Scalar

/-!
# Complex amplitudes

The amplitude of a wave is a complex number, kept as its real and imaginary parts. A rotation by
whole quarter turns only exchanges and negates the parts, without multiplications.
-/

namespace Seeing

/-- A complex amplitude. -/
structure Amplitude (α : Type) where
  /-- The real part. -/
  re : α
  /-- The imaginary part. -/
  im : α
  deriving DecidableEq, Repr

namespace Amplitude

variable {α : Type} [Scalar α]

/-- The amplitude of no wave. -/
def zero : Amplitude α := ⟨0, 0⟩

instance instInhabited : Inhabited (Amplitude α) := ⟨zero⟩

instance instAdd : Add (Amplitude α) := ⟨fun a b => ⟨a.re + b.re, a.im + b.im⟩⟩

instance instNeg : Neg (Amplitude α) := ⟨fun a => ⟨-a.re, -a.im⟩⟩

instance instMul : Mul (Amplitude α) :=
  ⟨fun a b => ⟨a.re * b.re - a.im * b.im, a.re * b.im + a.im * b.re⟩⟩

/-- The amplitude scaled by a number. -/
def scale (a : Amplitude α) (x : α) : Amplitude α := ⟨a.re * x, a.im * x⟩

/-- The squared modulus. -/
def normSq (a : Amplitude α) : α := a.re * a.re + a.im * a.im

/-- The amplitude of a real number. -/
def ofReal (x : α) : Amplitude α := ⟨x, 0⟩

/-- The amplitude of modulus one with the given phase. -/
def ofPhase (phase : α) : Amplitude α := ⟨Scalar.cos phase, Scalar.sin phase⟩

/-- The amplitude turned by a quarter of a turn, from the real to the imaginary axis. -/
def quarterTurn (a : Amplitude α) : Amplitude α := ⟨-a.im, a.re⟩

theorem re_add (a b : Amplitude α) : (a + b).re = a.re + b.re := rfl

theorem im_add (a b : Amplitude α) : (a + b).im = a.im + b.im := rfl

theorem re_mul (a b : Amplitude α) : (a * b).re = a.re * b.re - a.im * b.im := rfl

theorem im_mul (a b : Amplitude α) : (a * b).im = a.re * b.im + a.im * b.re := rfl

/-- The sum of the values of `f` at the counts below `n`, from zero up. -/
@[specialize] def sumBelow (n : Nat) (f : (k : Nat) → k < n → Amplitude α) : Amplitude α :=
  Nat.fold n (fun k hk total => total + f k hk) zero

theorem sumBelow_zero (f : (k : Nat) → k < 0 → Amplitude α) : sumBelow 0 f = zero := rfl

theorem sumBelow_succ (n : Nat) (f : (k : Nat) → k < n + 1 → Amplitude α) :
    sumBelow (n + 1) f =
      sumBelow n (fun k hk => f k (Nat.lt_succ_of_lt hk)) + f n (Nat.lt_succ_self n) := rfl

end Amplitude

end Seeing
