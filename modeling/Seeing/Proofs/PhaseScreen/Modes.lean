import Seeing.PhaseScreen
import Seeing.Proofs.Fourier.Frequencies
import Seeing.Proofs.Fourier.Square
import Seeing.Proofs.Random

/-!
# The modes of a phase screen

A screen keeps the real part of the transform of its modes. That part is the transform
of the averages of every mode with the conjugate of its mirror image, and these are the
modes that a transform of the phases shows: `spectrum_ofDeviates`. A mode and its mirror
image have the same frequency, also when one of them lies at the end of the frequencies
of an even side, so a cutoff keeps both or none. The deviates are drawn before the
cutoff is looked at.
-/

open ComplexConjugate

namespace Seeing

/-- Mirror images have opposite frequencies, except for the one at the end of an even
side, which is its own mirror image. -/
theorem sq_get_sampleFrequencies_neg {n : ℕ} [NeZero n] (d : ℝ) (i : Fin n) :
    (sampleFrequencies n d).get (-i) ^ 2 = (sampleFrequencies n d).get i ^ 2 := by
  by_cases hzero : i = 0
  · rw [hzero, neg_zero]
  · have hpos : i.val ≠ 0 := fun h => hzero (Fin.ext h)
    have hlt := i.isLt
    rw [get_sampleFrequencies, get_sampleFrequencies, mul_pow, mul_pow, Fin.val_neg,
      if_neg hzero, Nat.cast_sub hlt.le]
    congr 1
    -- at the end of an even side both are in the upper half, otherwise only one of them
    by_cases hend : 2 * i.val = n
    · rw [if_neg (by omega), if_neg (by omega)]
      have hend' : 2 * (i.val : ℝ) = n := by exact_mod_cast hend
      rw [← hend']
      ring
    · by_cases hlower : i.val ≤ (n - 1) / 2
      · rw [if_neg (by omega), if_pos hlower]
        ring
      · rw [if_pos (by omega), if_neg hlower]
        ring

namespace PhaseScreen

/-- The frequency of a mode in cycles per metre. -/
noncomputable def frequencyAt {side : ℕ} (scale : ℝ) (i j : Fin side) : ℝ :=
  √((sampleFrequencies side scale).get i ^ 2 + (sampleFrequencies side scale).get j ^ 2)

theorem frequencyAt_neg {side : ℕ} [NeZero side] (scale : ℝ) (i j : Fin side) :
    frequencyAt scale (-i) (-j) = frequencyAt scale i j := by
  rw [frequencyAt, sq_get_sampleFrequencies_neg, sq_get_sampleFrequencies_neg, frequencyAt]

theorem frequencyAt_zero {side : ℕ} (scale : ℝ) (side_pos : 0 < side) :
    frequencyAt scale ⟨0, side_pos⟩ ⟨0, side_pos⟩ = 0 := by
  simp [frequencyAt, sampleFrequencies]

/-- The modes that the phases of a screen are made of. -/
noncomputable def spectrum (p : PhaseScreen ℝ) : Fin p.side → Fin p.side → ℂ :=
  ((p.phases.map Amplitude.ofReal).transform .forward).toComplex

theorem toComplex_modes (s : Statistics ℝ) {side : ℕ}
    (deviates : Grid side side (Amplitude ℝ)) (i j : Fin side) :
    (modes s deviates).toComplex i j =
      s.modeSize side (frequencyAt s.scale i j) * deviates.toComplex i j := by
  rw [Grid.toComplex, modes, Grid.get_ofFn, Amplitude.toComplex_scale]
  rfl

/-- The phases are the real part of the double sum over the modes. -/
theorem get_phases_ofDeviates (s : Statistics ℝ) (velocity : ℝ × ℝ) {side : ℕ}
    (side_pos : 0 < side) (deviates : Grid side side (Amplitude ℝ)) (i j : Fin side) :
    (ofDeviates s velocity side_pos deviates).phases.get i j =
      (Direction.inverse.doubleSum (modes s deviates).toComplex i j).re := by
  rw [← Grid.toComplex_transform]
  exact Grid.get_map _ _ i j

/-- A mode is the average of the drawn one and the conjugate of its mirror image, both
scaled by the spectrum of the turbulence at the frequency they share. -/
theorem spectrum_ofDeviates (s : Statistics ℝ) (velocity : ℝ × ℝ) {side : ℕ}
    [NeZero side] (side_pos : 0 < side) (deviates : Grid side side (Amplitude ℝ))
    (i j : Fin side) :
    spectrum (ofDeviates s velocity side_pos deviates) i j =
      side ^ 2 / 2 * (s.modeSize side (frequencyAt s.scale i j) *
        (deviates.toComplex i j + conj (deviates.toComplex (-i) (-j)))) := by
  let screen : Grid side side ℝ := (ofDeviates s velocity side_pos deviates).phases
  have hphases : (screen.map Amplitude.ofReal).toComplex = fun i j =>
      ((Direction.inverse.doubleSum (modes s deviates).toComplex i j).re : ℂ) := by
    funext i j
    rw [Grid.toComplex, Grid.get_map, Amplitude.toComplex_ofReal]
    exact congrArg _ (get_phases_ofDeviates s velocity side_pos deviates i j)
  calc
    spectrum (ofDeviates s velocity side_pos deviates) i j
      = Direction.forward.doubleSum (screen.map Amplitude.ofReal).toComplex i j :=
        Grid.toComplex_transform .forward _ i j
    _ = side ^ 2 / 2 * ((modes s deviates).toComplex i j +
          conj ((modes s deviates).toComplex (-i) (-j))) := by
        rw [hphases]
        exact Direction.doubleSum_opposite_re .inverse _ i j
    _ = side ^ 2 / 2 * (s.modeSize side (frequencyAt s.scale i j) *
          (deviates.toComplex i j + conj (deviates.toComplex (-i) (-j)))) := by
        simp only [toComplex_modes, map_mul, Complex.conj_ofReal, frequencyAt_neg]
        ring

theorem modeSize_of_lt (s : Statistics ℝ) (side : ℕ) {frequency : ℝ}
    (hcutoff : frequency = 0 ∨ 2 * Real.pi * frequency < s.cutoff) :
    s.modeSize side frequency = 0 := by
  rw [Statistics.modeSize, if_pos (by simpa using hcutoff)]
  exact Scalar.real_zero

/-- The size of a mode that is kept, in which the cutoff does not occur. -/
theorem modeSize_of_le (s : Statistics ℝ) (side : ℕ) {frequency : ℝ}
    (hfrequency : frequency ≠ 0) (hcutoff : s.cutoff ≤ 2 * Real.pi * frequency) :
    s.modeSize side frequency =
      √(phaseSpectrum frequency s.r0 s.outerScale) / (side * s.scale) := by
  have hrecip : Scalar.recip (Scalar.ofNat side * s.scale) = 1 / (side * s.scale) := by
    simp [Scalar.recip]
  rw [Statistics.modeSize, if_neg (by simp [hfrequency, hcutoff]), hrecip]
  exact mul_one_div _ _

section Draw

variable [RandomSource ℝ]

/-- The modes that a state of a source gives when no cutoff leaves them out: the average
of a mode and the conjugate of its mirror image. -/
noncomputable def realisation (s : Statistics ℝ) (side : ℕ) (state : RandomSource.State ℝ)
    (i j : Fin side) : ℂ :=
  let deviates := (drawDeviates (α := ℝ) side state).1.toComplex
  side ^ 2 / 2 * ((√(phaseSpectrum (frequencyAt s.scale i j) s.r0 s.outerScale) /
    (side * s.scale) : ℝ) * (deviates i j + conj (deviates (-i) (-j))))

/-- What is drawn does not depend on the statistics. -/
theorem snd_draw (s : Statistics ℝ) (velocity : ℝ × ℝ) (side : ℕ) (side_pos : 0 < side)
    (state : RandomSource.State ℝ) :
    (draw s velocity side side_pos state).2 = (drawDeviates (α := ℝ) side state).2 := rfl

/-- A cutoff only decides which modes of one realisation are kept. The mean and the
modes below the cutoff are zero, the others are those of the realisation and so the same
for every cutoff that keeps them. The state of the source afterwards is the same, too. -/
theorem spectrum_draw (s : Statistics ℝ) (velocity : ℝ × ℝ) {side : ℕ}
    (side_pos : 0 < side) (state : RandomSource.State ℝ) :
    (∀ cutoff, spectrum (draw { s with cutoff := cutoff } velocity side side_pos state).1
      ⟨0, side_pos⟩ ⟨0, side_pos⟩ = 0) ∧
    (∀ (cutoff : ℝ) (i j : Fin side), 2 * Real.pi * frequencyAt s.scale i j < cutoff →
      spectrum (draw { s with cutoff := cutoff } velocity side side_pos state).1 i j = 0) ∧
    (∀ (cutoff : ℝ) (i j : Fin side), frequencyAt s.scale i j ≠ 0 →
      cutoff ≤ 2 * Real.pi * frequencyAt s.scale i j →
      spectrum (draw { s with cutoff := cutoff } velocity side side_pos state).1 i j =
        realisation s side state i j) ∧
    (∀ (cutoff cutoff' : ℝ) (i j : Fin side),
      cutoff ≤ 2 * Real.pi * frequencyAt s.scale i j →
      cutoff' ≤ 2 * Real.pi * frequencyAt s.scale i j →
      spectrum (draw { s with cutoff := cutoff } velocity side side_pos state).1 i j =
        spectrum (draw { s with cutoff := cutoff' } velocity side side_pos state).1 i j) ∧
    ∀ cutoff, (draw { s with cutoff := cutoff } velocity side side_pos state).2 =
      (draw s velocity side side_pos state).2 := by
  have : NeZero side := ⟨side_pos.ne'⟩
  have hmode : ∀ (cutoff : ℝ) (i j : Fin side),
      spectrum (draw { s with cutoff := cutoff } velocity side side_pos state).1 i j =
        side ^ 2 / 2 * ({ s with cutoff := cutoff }.modeSize side (frequencyAt s.scale i j) *
          ((drawDeviates side state).1.toComplex i j +
            conj ((drawDeviates side state).1.toComplex (-i) (-j)))) :=
    fun cutoff i j => spectrum_ofDeviates { s with cutoff := cutoff } velocity side_pos _ i j
  have hzero : ∀ (cutoff : ℝ) (i j : Fin side),
      frequencyAt s.scale i j = 0 ∨ 2 * Real.pi * frequencyAt s.scale i j < cutoff →
      spectrum (draw { s with cutoff := cutoff } velocity side side_pos state).1 i j = 0 := by
    intro cutoff i j hcutoff
    rw [hmode, modeSize_of_lt _ _ hcutoff]
    simp
  have hkept : ∀ (cutoff : ℝ) (i j : Fin side), frequencyAt s.scale i j ≠ 0 →
      cutoff ≤ 2 * Real.pi * frequencyAt s.scale i j →
      spectrum (draw { s with cutoff := cutoff } velocity side side_pos state).1 i j =
        realisation s side state i j := by
    intro cutoff i j hfrequency hcutoff
    rw [hmode, modeSize_of_le _ _ hfrequency hcutoff, realisation]
  refine ⟨?_, fun cutoff i j hlt => hzero cutoff i j (.inr hlt), hkept, ?_, ?_⟩
  · intro cutoff
    exact hzero cutoff ⟨0, side_pos⟩ ⟨0, side_pos⟩ (.inl (frequencyAt_zero s.scale side_pos))
  · intro cutoff cutoff' i j hle hle'
    by_cases hfrequency : frequencyAt s.scale i j = 0
    · rw [hzero _ _ _ (.inl hfrequency), hzero _ _ _ (.inl hfrequency)]
    · rw [hkept _ _ _ hfrequency hle, hkept _ _ _ hfrequency hle']
  · intro cutoff
    rw [snd_draw, snd_draw]

end Draw

/-- On a screen of two by two pixels of a metre, a cutoff of four removes the mode in the
second column and keeps the one in the second column and row. -/
theorem spectrum_draw_counting :
    letI := countingSource
    let screen (cutoff : ℝ) : PhaseScreen ℝ :=
      (draw ⟨1, 1, 1, cutoff⟩ (0, 0) 2 two_pos (0 : ℕ)).1
    spectrum (screen 4) (1 : Fin 2) (0 : Fin 2) = 0 ∧
      spectrum (screen 4) (1 : Fin 2) (1 : Fin 2) =
        spectrum (screen 0) (1 : Fin 2) (1 : Fin 2) := by
  have hone : (sampleFrequencies 2 (1 : ℝ)).get 1 = -(1 / 2) := by
    rw [sampleFrequencies, Vector.get_ofFn]
    simp
    norm_num
  have hzero : (sampleFrequencies 2 (1 : ℝ)).get 0 = 0 := by
    rw [sampleFrequencies, Vector.get_ofFn]
    simp
  have hpi := Real.pi_gt_three
  obtain ⟨-, hbelow, -, habove, -⟩ :=
    @spectrum_draw countingSource ⟨1, 1, 1, 0⟩ (0, 0) 2 two_pos (0 : ℕ)
  have hkept : 4 ≤ 2 * Real.pi * frequencyAt 1 (1 : Fin 2) 1 := by
    rw [frequencyAt, hone]
    have hsqrt : (7 : ℝ) / 10 ≤ √((-(1 / 2)) ^ 2 + (-(1 / 2)) ^ 2) := by
      apply Real.le_sqrt_of_sq_le
      norm_num
    nlinarith
  constructor
  · apply hbelow
    rw [frequencyAt, hone, hzero, zero_pow two_ne_zero, add_zero, Real.sqrt_sq_eq_abs]
    have := Real.pi_lt_d2
    norm_num
    linarith
  · exact habove 4 0 1 1 hkept (by linarith)

end PhaseScreen

end Seeing
