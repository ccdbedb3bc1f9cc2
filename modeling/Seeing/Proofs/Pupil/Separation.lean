import Seeing.Proofs.Pupil.Sampling

/-!
# How far apart samples lie

Two samples are at most a diameter apart. Along an axis they are less than a diameter apart, since
no sample of an even side lies on the other axis. A square of at least the resolution of the
telescope is twice a diameter wide, so its samples differ by less than half a side along each axis:
`lt_add_half_side`. Their difference is then known from its remainder modulo the side.
-/

open Real

namespace Seeing

namespace Pupil

/-- The first cell and the second are samples of the pupil, and the first lies `x` columns and `y`
rows after the second. -/
structure Apart (p : Pupil ℝ) (x y : ℝ) (u v : Fin p.side × Fin p.side) : Prop where
  fst_inside : p.mask.get u.1 u.2
  snd_inside : p.mask.get v.1 v.2
  columns : (u.1 : ℝ) - v.1 = x
  rows : (u.2 : ℝ) - v.2 = y

noncomputable instance instDecidableApart (p : Pupil ℝ) (x y : ℝ) (u v : Fin p.side × Fin p.side) :
    Decidable (p.Apart x y u v) := Classical.propDecidable _

/-- The number of pairs of samples that lie `x` columns and `y` rows apart. -/
noncomputable def pairsApart (p : Pupil ℝ) (x y : ℝ) : ℕ :=
  (Finset.univ.filter fun w : (Fin p.side × Fin p.side) × Fin p.side × Fin p.side =>
    p.Apart x y w.1 w.2).card

theorem pairsApart_eq_zero {p : Pupil ℝ} {x y : ℝ} (hnone : ∀ u v, ¬p.Apart x y u v) :
    p.pairsApart x y = 0 := by
  rw [pairsApart, Finset.card_eq_zero, Finset.filter_eq_empty_iff]
  intro w _
  exact hnone w.1 w.2

theorem coordinate_sub (p : Pupil ℝ) (i i' : ℕ) :
    p.coordinate i - p.coordinate i' = ((i : ℝ) - i') * p.scale := by
  rw [coordinate, coordinate, coordinateOn_eq, coordinateOn_eq]
  ring

theorem sqrt_sub_sq_le {x y x' y' r : ℝ} (h : √(x ^ 2 + y ^ 2) ≤ r)
    (h' : √(x' ^ 2 + y' ^ 2) ≤ r) : √((x - x') ^ 2 + (y - y') ^ 2) ≤ 2 * r := by
  have hnorm : ∀ a b : ℝ, √(a ^ 2 + b ^ 2) = ‖(⟨a, b⟩ : ℂ)‖ := by
    intro a b
    rw [Complex.norm_eq_sqrt_sq_add_sq]
  rw [hnorm] at h h'
  calc
    √((x - x') ^ 2 + (y - y') ^ 2) = ‖(⟨x, y⟩ : ℂ) - ⟨x', y'⟩‖ := hnorm _ _
    _ ≤ ‖(⟨x, y⟩ : ℂ)‖ + ‖(⟨x', y'⟩ : ℂ)‖ := norm_sub_le _ _
    _ ≤ 2 * r := by linarith

end Pupil

namespace PupilSettings

variable {s : PupilSettings ℝ} {p : Pupil ℝ} (hbuild : s.build = .ok p)

include hbuild

theorem diameter_of_build : p.diameter = s.diameter := by
  obtain ⟨-, -, -, rfl⟩ := build_eq_ok_iff.1 hbuild
  rfl

theorem get_mask_of_build (i j : Fin p.side) : p.mask.get i j =
    Pupil.annulus p.diameter p.obscuration (p.coordinate i) (p.coordinate j) := by
  obtain ⟨-, -, -, rfl⟩ := build_eq_ok_iff.1 hbuild
  exact get_mask_sampled s i j

theorem sqrt_coordinate_le {i j : Fin p.side} (hinside : p.mask.get i j) :
    √(p.coordinate i ^ 2 + p.coordinate j ^ 2) ≤ p.diameter / 2 := by
  rw [get_mask_of_build hbuild, Pupil.annulus_iff] at hinside
  exact hinside.1

/-- A sample lies off both axes, and so inside the rim along each of them. -/
theorem abs_coordinate_lt {i j : Fin p.side} (hinside : p.mask.get i j) :
    |p.coordinate i| < p.diameter / 2 ∧ |p.coordinate j| < p.diameter / 2 := by
  have hdiameter : 0 < p.diameter := by
    rw [diameter_of_build hbuild]
    exact (pos_of_build hbuild).1
  have hscale := scale_pos_of_build hbuild
  have hoff : ∀ k : Fin p.side, 0 < p.coordinate k ^ 2 := by
    intro k
    have hhalf : p.scale / 2 ≤ |p.coordinate k| :=
      Pupil.half_scale_le_abs_coordinateOn (even_side hbuild) hscale.le k
    rw [← sq_abs]
    have : 0 < |p.coordinate k| := by linarith
    positivity
  have hradius := (Real.sqrt_le_left (by positivity)).1 (sqrt_coordinate_le hbuild hinside)
  have hi := hoff i
  have hj := hoff j
  constructor <;> apply abs_lt_of_sq_lt_sq _ (by positivity) <;> linarith

/-- Twice the diameter leaves no room for samples half a side apart. -/
theorem lt_add_half_side (hoversampling : 1 ≤ s.oversampling) {i j i' j' : Fin p.side}
    (hinside : p.mask.get i j) (hinside' : p.mask.get i' j') :
    i.val < i'.val + p.side / 2 ∧ j.val < j'.val + p.side / 2 := by
  have hscale := scale_pos_of_build hbuild
  have hplane : 2 * p.diameter ≤ p.side * p.scale := by
    have hdiameter := (pos_of_build hbuild).1
    rw [diameter_of_build hbuild]
    nlinarith [le_side_mul_scale hbuild]
  have haxis : ∀ k k' : Fin p.side, |p.coordinate k| < p.diameter / 2 →
      |p.coordinate k'| < p.diameter / 2 → k.val < k'.val + p.side / 2 := by
    intro k k' hk hk'
    have hapart : ((k : ℝ) - k') * p.scale < p.side / 2 * p.scale := by
      rw [← Pupil.coordinate_sub]
      rw [abs_lt] at hk hk'
      linarith
    have hlt := lt_of_mul_lt_mul_right hapart hscale.le
    have hhalf : ((p.side / 2 : ℕ) : ℝ) = p.side / 2 := by
      rw [Nat.cast_div (even_side hbuild).two_dvd two_ne_zero, Nat.cast_two]
    have : (k : ℝ) < k' + (p.side / 2 : ℕ) := by
      rw [hhalf]
      linarith
    exact_mod_cast this
  have hrim := abs_coordinate_lt hbuild hinside
  have hrim' := abs_coordinate_lt hbuild hinside'
  exact ⟨haxis i i' hrim.1 hrim'.1, haxis j j' hrim.2 hrim'.2⟩

/-- No two samples are more than a diameter apart. -/
theorem pairsApart_of_lt {x y : ℝ}
    (hfar : p.diameter < √((x * p.scale) ^ 2 + (y * p.scale) ^ 2)) : p.pairsApart x y = 0 := by
  apply Pupil.pairsApart_eq_zero
  intro u v hapart
  have hle := Pupil.sqrt_sub_sq_le (sqrt_coordinate_le hbuild hapart.fst_inside)
    (sqrt_coordinate_le hbuild hapart.snd_inside)
  rw [Pupil.coordinate_sub, Pupil.coordinate_sub, hapart.columns, hapart.rows] at hle
  linarith

end PupilSettings

end Seeing
