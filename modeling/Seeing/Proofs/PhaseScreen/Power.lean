import Seeing.Proofs.Fourier.Energy
import Seeing.Proofs.PhaseScreen.Modes

/-!
# The power of a screen

The sum of the phases of a screen is its mode of frequency zero, `spectrum_zero`, and the sum of
their squares is that of the moduli of all its modes, `sum_sq_norm_spectrum`. What the real part of
a transform mixes is a mode and its mirror image, and a cutoff keeps both or none of them. So the
modes of a screen are those of one realisation or zero, and its power is added up over the modes
that are kept: `sq_side_mul_power_draw`.
-/

open Complex ComplexConjugate

namespace Seeing

namespace PhaseScreen

section Totals

variable {α : Type} [Scalar α]

/-- The sum of the phases at the pixels. -/
def piston (p : PhaseScreen α) : α := Scalar.sumArray p.phases.toArray

/-- The sum of the squares of the phases at the pixels. -/
def power (p : PhaseScreen α) : α := Scalar.sumArray (p.phases.map Scalar.square).toArray

end Totals

section Spectrum

variable (p : PhaseScreen ℝ)

theorem spectrum_eq_doubleSum (i j : Fin p.side) : p.spectrum i j =
    Direction.forward.doubleSum (fun a b => (p.phases.get a b : ℂ)) i j := by
  have hphases : (p.phases.map Amplitude.ofReal).toComplex =
      fun a b => (p.phases.get a b : ℂ) := by
    funext a b
    rw [Grid.toComplex, Grid.get_map, Amplitude.toComplex_ofReal]
  rw [spectrum, Grid.toComplex_transform, hphases]

theorem spectrum_zero : p.spectrum ⟨0, p.side_pos⟩ ⟨0, p.side_pos⟩ = p.piston := by
  have : NeZero p.side := ⟨p.side_pos.ne'⟩
  rw [spectrum_eq_doubleSum, piston, Grid.sumArray_toArray]
  push_cast
  exact Direction.doubleSum_zero .forward _

theorem sum_sq_norm_spectrum :
    ∑ j, ∑ i, ‖p.spectrum i j‖ ^ 2 = p.side ^ 2 * p.power := by
  have : NeZero p.side := ⟨p.side_pos.ne'⟩
  have hsquare : ∀ i j, (p.phases.map Scalar.square).get i j = ‖(p.phases.get i j : ℂ)‖ ^ 2 := by
    intro i j
    rw [Grid.get_map, Complex.norm_real, Real.norm_eq_abs, sq_abs]
    exact (sq _).symm
  rw [power, Grid.sumArray_toArray]
  simp only [spectrum_eq_doubleSum, hsquare]
  exact Direction.sum_sq_norm_doubleSum .forward _

end Spectrum

/-- A cutoff keeps the modes of a frequency: it leaves out the mean and what is below the cutoff. -/
def Kept (cutoff frequency : ℝ) : Prop := frequency ≠ 0 ∧ cutoff ≤ 2 * Real.pi * frequency

noncomputable instance instDecidableKept (cutoff frequency : ℝ) :
    Decidable (Kept cutoff frequency) := inferInstanceAs (Decidable (_ ∧ _))

theorem Kept.mono {cutoff cutoff' frequency : ℝ} (hle : cutoff ≤ cutoff')
    (hkept : Kept cutoff' frequency) : Kept cutoff frequency :=
  ⟨hkept.1, hle.trans hkept.2⟩

section Draw

variable [RandomSource ℝ] (s : Statistics ℝ) (velocity : ℝ × ℝ) {side : ℕ} (side_pos : 0 < side)
  (state : RandomSource.State ℝ) (cutoff : ℝ)

/-- The modes that are kept are those of the realisation, the others are zero. -/
theorem spectrum_draw_eq_ite (i j : Fin side) :
    spectrum (draw { s with cutoff := cutoff } velocity side side_pos state).1 i j =
      if Kept cutoff (frequencyAt s.scale i j) then realisation s side state i j else 0 := by
  have : NeZero side := ⟨side_pos.ne'⟩
  have hmode : spectrum (draw { s with cutoff := cutoff } velocity side side_pos state).1 i j =
      side ^ 2 / 2 * ({ s with cutoff := cutoff }.modeSize side (frequencyAt s.scale i j) *
        ((drawDeviates side state).1.toComplex i j +
          conj ((drawDeviates side state).1.toComplex (-i) (-j)))) :=
    spectrum_ofDeviates { s with cutoff := cutoff } velocity side_pos _ i j
  rw [hmode]
  split_ifs with hkept
  · rw [modeSize_of_le { s with cutoff := cutoff } side hkept.1 hkept.2, realisation]
  · have hout : frequencyAt s.scale i j = 0 ∨ 2 * Real.pi * frequencyAt s.scale i j < cutoff := by
      rwa [Kept, not_and_or, not_not, not_le] at hkept
    rw [modeSize_of_lt { s with cutoff := cutoff } side hout, ofReal_zero, zero_mul, mul_zero]

/-- The power of a screen is that of the modes that are kept. -/
theorem sq_side_mul_power_draw :
    side ^ 2 * power (draw { s with cutoff := cutoff } velocity side side_pos state).1 =
      ∑ j, ∑ i, if Kept cutoff (frequencyAt s.scale i j) then
        ‖realisation s side state i j‖ ^ 2 else 0 := by
  have hmode : ∀ i j : Fin side,
      ‖spectrum (draw { s with cutoff := cutoff } velocity side side_pos state).1 i j‖ ^ 2 =
        if Kept cutoff (frequencyAt s.scale i j) then ‖realisation s side state i j‖ ^ 2
        else 0 := by
    intro i j
    rw [spectrum_draw_eq_ite]
    split_ifs <;> simp
  simp only [← hmode]
  exact (sum_sq_norm_spectrum
    (draw { s with cutoff := cutoff } velocity side side_pos state).1).symm

theorem piston_draw :
    piston (draw { s with cutoff := cutoff } velocity side side_pos state).1 = 0 := by
  have hzero := spectrum_draw_eq_ite s velocity side_pos state cutoff ⟨0, side_pos⟩ ⟨0, side_pos⟩
  rw [if_neg fun hkept => hkept.1 (frequencyAt_zero s.scale side_pos)] at hzero
  rw [← ofReal_eq_zero, ← hzero]
  exact (spectrum_zero _).symm

end Draw

/-- Whatever the cutoff, the phases of a screen add up to zero. A higher cutoff gives a screen from
the same stream no more power. -/
theorem power_draw_le [RandomSource ℝ] (s : Statistics ℝ) (velocity : ℝ × ℝ) {side : ℕ}
    (side_pos : 0 < side) (state : RandomSource.State ℝ) {cutoff cutoff' : ℝ}
    (hle : cutoff ≤ cutoff') :
    piston (draw { s with cutoff := cutoff } velocity side side_pos state).1 = 0 ∧
    piston (draw { s with cutoff := cutoff' } velocity side side_pos state).1 = 0 ∧
    power (draw { s with cutoff := cutoff' } velocity side side_pos state).1 ≤
      power (draw { s with cutoff := cutoff } velocity side side_pos state).1 := by
  have hside : (0 : ℝ) < side ^ 2 := by positivity
  refine ⟨piston_draw .., piston_draw .., le_of_mul_le_mul_left ?_ hside⟩
  rw [sq_side_mul_power_draw, sq_side_mul_power_draw]
  apply Finset.sum_le_sum
  intro j _
  apply Finset.sum_le_sum
  intro i _
  split_ifs with hkept' hkept hkept
  · exact le_rfl
  · exact absurd (hkept'.mono hle) hkept
  · positivity
  · exact le_rfl

/-- On a screen of two by two pixels of a metre, a cutoff of four keeps fewer modes than one of
zero. -/
theorem power_draw_le_counting : letI := countingSource
    let screen (cutoff : ℝ) : PhaseScreen ℝ :=
      (draw ⟨1, 1, 1, cutoff⟩ (0, 0) 2 two_pos (0 : ℕ)).1
    piston (screen 0) = 0 ∧ piston (screen 4) = 0 ∧ power (screen 4) ≤ power (screen 0) :=
  @power_draw_le countingSource ⟨1, 1, 1, 0⟩ (0, 0) 2 two_pos (0 : ℕ) 0 4 zero_le_four

end PhaseScreen

end Seeing
