import Seeing.Proofs.Moments.Bounds
import Seeing.Proofs.Moments.Copy

/-!
# Fits to transposed and to brighter images

An image with its axes exchanged and an image with all pixels multiplied by a positive
number are copies with the same bounds, so a fit to them corresponds to the fit to the
image at every iteration: `find_transposed`, `find_brightened`.
-/

namespace Seeing

/-- The image with its columns and rows exchanged. -/
def Image.transposed {α : Type} (image : Image α) : Image α where
  width := image.height
  height := image.width
  scale := image.scale
  pixels := image.pixels.transpose
  width_pos := image.height_pos
  height_pos := image.width_pos

/-- The image with all pixels multiplied by a number. -/
noncomputable def Image.brightened (image : Image ℝ) (gain : ℝ) : Image ℝ :=
  { image with pixels := image.pixels.map (gain * ·) }

/-- The shape in the image with its columns and rows exchanged. -/
noncomputable def Shape.transposed (s : Shape ℝ) : Shape ℝ :=
  { s with centre := s.centre.swap, e1 := -s.e1 }

/-- The shape in the image with all pixels multiplied by a number. -/
noncomputable def Shape.brightened (gain : ℝ) (s : Shape ℝ) : Shape ℝ :=
  { s with amplitude := gain * s.amplitude }

namespace Copy

variable (image : Image ℝ)

/-- The image with its axes exchanged, as a copy. -/
noncomputable def exchange : Copy image image.transposed where
  motion := .exchange
  gain := 1
  gain_pos := Real.zero_lt_one
  pixel := .prodComm _ _
  place_pixel p := (Motion.place_exchange (p.1, p.2)).symm
  get_pixel p := (Grid.get_transpose _ p.2 p.1).trans (one_mul _).symm

/-- The image with all pixels multiplied by a positive number, as a copy. -/
noncomputable def brighten {gain : ℝ} (hgain : 0 < gain) :
    Copy image (image.brightened gain) where
  motion := .still
  gain := gain
  gain_pos := hgain
  pixel := .refl _
  place_pixel _ := (Motion.place_still _).symm
  get_pixel p := Grid.get_map _ _ p.1 p.2

theorem motion_exchange : (exchange image).motion = .exchange := rfl

theorem motion_brighten {gain : ℝ} (hgain : 0 < gain) :
    (brighten image hgain).motion = .still := rfl

theorem shape_exchange : (exchange image).shape = Shape.transposed := by
  funext s
  rw [shape, motion_exchange, Motion.place_exchange]
  simp [exchange, Shape.transposed, Motion.parity, Motion.sense, Motion.exchange]

theorem shape_brighten {gain : ℝ} (hgain : 0 < gain) :
    (brighten image hgain).shape = Shape.brightened gain := by
  funext s
  rw [shape, motion_brighten, Motion.place_still]
  simp [brighten, Shape.brightened, Motion.parity, Motion.sense, Motion.still]

end Copy

namespace MomentsFit

section Bounds

variable {image : Image ℝ} {v : Weight ℝ}

theorem isOutside_exchange :
    isOutside image.transposed ((Copy.exchange image).motion.weight v) =
      isOutside image v := by
  rw [isOutside_eq_iff, isOutside_eq_false_iff, isOutside_eq_false_iff, Motion.weight,
    Copy.motion_exchange, Motion.place_exchange, Motion.trace_turn, and_left_comm, max_comm]
  rfl

theorem isOutside_brighten {gain : ℝ} (hgain : 0 < gain) :
    isOutside (image.brightened gain) ((Copy.brighten image hgain).motion.weight v) =
      isOutside image v := by
  rw [isOutside_eq_iff, isOutside_eq_false_iff, isOutside_eq_false_iff, Motion.weight,
    Copy.motion_brighten, Motion.place_still, Motion.trace_turn]
  rfl

end Bounds

variable (fit : MomentsFit ℝ) (image : Image ℝ)

/-- A fit to the image with its axes exchanged fails in the same way, or finds the shape with the
coordinates of its centre exchanged and the ellipticity along the axes of the other sign. -/
theorem find_transposed :
    fit.find image.transposed = (fit.find image).map Shape.transposed := by
  rw [← Copy.shape_exchange image]
  exact (Copy.exchange image).find_copy fit fun v _ => isOutside_exchange

/-- A fit to a brighter or fainter image fails in the same way, or finds the shape with the
amplitude multiplied by the same number. -/
theorem find_brightened {gain : ℝ} (hgain : 0 < gain) :
    fit.find (image.brightened gain) = (fit.find image).map (Shape.brightened gain) := by
  rw [← Copy.shape_brighten image hgain]
  exact (Copy.brighten image hgain).find_copy fit fun v _ => isOutside_brighten hgain

/-- Four pixels three times as bright have three times the amplitude. -/
theorem find_brightened_fourPixels : (0 : ℝ) < 3 ∧
    ∃ s, ({} : MomentsFit ℝ).find fourPixels = .ok s ∧
      ({} : MomentsFit ℝ).find (fourPixels.brightened 3) =
        .ok { s with amplitude := 3 * s.amplitude } := by
  obtain ⟨s, hs⟩ := find_fourPixels
  have hbrightened := find_brightened {} fourPixels (three_pos : (0 : ℝ) < 3)
  rw [hs] at hbrightened
  exact ⟨three_pos, s, hs, hbrightened⟩

end MomentsFit

end Seeing
