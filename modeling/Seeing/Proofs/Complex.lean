import Seeing.Amplitude
import Seeing.Proofs.Real

/-!
# Amplitudes as complex numbers

An amplitude with real parts is a complex number. `Amplitude.toComplex` carries
the operations of amplitudes to those of the field, so that every statement about
fields of light is one about complex numbers.
-/

open Complex ComplexConjugate

namespace Seeing

namespace Amplitude

/-- The complex number of an amplitude. -/
def toComplex (a : Amplitude ℝ) : ℂ := ⟨a.re, a.im⟩

@[simp] theorem re_toComplex (a : Amplitude ℝ) : a.toComplex.re = a.re := rfl

@[simp] theorem im_toComplex (a : Amplitude ℝ) : a.toComplex.im = a.im := rfl

@[simp] theorem toComplex_zero : (zero : Amplitude ℝ).toComplex = 0 := by
  apply Complex.ext <;> simp [zero]

@[simp] theorem toComplex_add (a b : Amplitude ℝ) :
    (a + b).toComplex = a.toComplex + b.toComplex := by
  apply Complex.ext <;> simp [re_add, im_add]

@[simp] theorem toComplex_neg (a : Amplitude ℝ) : (-a).toComplex = -a.toComplex := rfl

@[simp] theorem toComplex_mul (a b : Amplitude ℝ) :
    (a * b).toComplex = a.toComplex * b.toComplex := by
  apply Complex.ext <;> simp [re_mul, im_mul]

@[simp] theorem toComplex_scale (a : Amplitude ℝ) (x : ℝ) :
    (a.scale x).toComplex = x * a.toComplex := by
  apply Complex.ext <;> simp [scale, mul_comm]

@[simp] theorem toComplex_ofReal (x : ℝ) : (ofReal x).toComplex = x := by
  apply Complex.ext <;> simp [ofReal]

@[simp] theorem toComplex_ofPhase (phase : ℝ) :
    (ofPhase phase).toComplex = exp (phase * I) := by
  apply Complex.ext <;> simp [ofPhase, exp_ofReal_mul_I_re, exp_ofReal_mul_I_im]

@[simp] theorem toComplex_quarterTurn (a : Amplitude ℝ) :
    a.quarterTurn.toComplex = I * a.toComplex := by
  apply Complex.ext <;> simp [quarterTurn]

theorem normSq_eq_sq_norm (a : Amplitude ℝ) : a.normSq = ‖a.toComplex‖ ^ 2 := by
  rw [← Complex.normSq_eq_norm_sq, Complex.normSq_apply]
  rfl

@[simp] theorem toComplex_sumBelow (n : ℕ) (f : (k : ℕ) → k < n → Amplitude ℝ) :
    (sumBelow n f).toComplex = ∑ k : Fin n, (f k k.isLt).toComplex := by
  induction n with
  | zero => simp [sumBelow_zero]
  | succ n ih =>
      rw [sumBelow_succ, toComplex_add, ih, Fin.sum_univ_castSucc]
      rfl

end Amplitude

end Seeing
