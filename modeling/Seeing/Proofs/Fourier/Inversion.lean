import Seeing.Proofs.Fourier.Energy
import Seeing.Proofs.Fourier.Square

/-!
# Two opposite transforms

Over the complex numbers a transform of a square and then the opposite one give the square back,
every value multiplied by the number of cells and in its own cell: `transform_opposite`. The
exchanges of columns and rows cancel, and the rotations by different frequencies are orthogonal. A
single transform multiplies the energy by the same number.
-/

namespace Seeing

theorem Amplitude.toComplex_injective : Function.Injective Amplitude.toComplex := by
  rintro ⟨re, im⟩ ⟨re', im'⟩ h
  cases h
  rfl

namespace Grid

variable {n : ℕ}

theorem ext_toComplex {a b : Grid n n (Amplitude ℝ)}
    (hab : ∀ i j, a.toComplex i j = b.toComplex i j) : a = b := by
  apply ext_get
  intro i j
  exact Amplitude.toComplex_injective (hab i j)

/-- A transform and the opposite one after it, in either order. -/
theorem transform_opposite (d : Direction) (g : Grid n n (Amplitude ℝ)) :
    (g.transform d).transform d.opposite = g.map fun a => a.scale (n ^ 2) := by
  apply ext_toComplex
  intro i j
  have hn : NeZero n := ⟨(Fin.pos i).ne'⟩
  have hinner : (g.transform d).toComplex = d.doubleSum g.toComplex := by
    funext p q
    exact toComplex_transform d g p q
  rw [toComplex_transform, hinner, Direction.doubleSum_opposite_doubleSum, toComplex, toComplex,
    get_map, Amplitude.toComplex_scale]
  push_cast
  rfl

/-- The sum of the squared moduli of the values of a square. -/
noncomputable def energy (g : Grid n n (Amplitude ℝ)) : ℝ :=
  Scalar.sumArray (g.map Amplitude.normSq).toArray

theorem energy_eq_sum (g : Grid n n (Amplitude ℝ)) :
    g.energy = ∑ j, ∑ i, ‖g.toComplex i j‖ ^ 2 := by
  rw [energy, sumArray_toArray]
  simp only [get_map, Amplitude.normSq_eq_sq_norm, toComplex]

theorem energy_transform (d : Direction) (g : Grid n n (Amplitude ℝ)) :
    (g.transform d).energy = n ^ 2 * g.energy := by
  rw [energy_eq_sum, energy_eq_sum]
  rcases Nat.eq_zero_or_pos n with rfl | hpos
  · simp
  have hn : NeZero n := ⟨hpos.ne'⟩
  simp only [toComplex_transform]
  exact Direction.sum_sq_norm_doubleSum d g.toComplex

/-- The inverse transform after the forward one, and the forward one after the inverse one, multiply
every value by the number of cells and change nothing else. The forward transform multiplies the
energy by that number. -/
theorem transforms_cancel (g : Grid n n (Amplitude ℝ)) :
    (g.transform .forward).transform .inverse = g.map (fun a => a.scale (n ^ 2)) ∧
      (g.transform .inverse).transform .forward = g.map (fun a => a.scale (n ^ 2)) ∧
      Scalar.sumArray ((g.transform .forward).map Amplitude.normSq).toArray =
        n ^ 2 * Scalar.sumArray (g.map Amplitude.normSq).toArray :=
  ⟨transform_opposite .forward g, transform_opposite .inverse g, energy_transform .forward g⟩

end Grid

end Seeing
