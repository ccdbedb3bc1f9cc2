import Seeing.Proofs.Moments.Flux
import Seeing.Proofs.Moments.Lockstep
import Seeing.Proofs.Moments.Motion

/-!
# Fits to copies of an image

A copy of an image has its pixels in other places, moved by a motion that takes the axes
to the axes, and all of their values multiplied by the same positive gain. The sums of a
copy under a moved weight are the moved sums, so an iteration moves to the moved weight,
and a fit starts from the moved weight: `step_weight`, `initial_copy`. Only the test of
the bounds is made in the frame of the image. Where it has the same outcome for all
weights that a fit tests, two fits run in step and their results correspond, and where it
has not, they correspond only if both leave the image: `find_eq_map_iff`.
-/

namespace Seeing

/-- An image that shows another one: the pixels moved, and their values multiplied by a gain. -/
structure Copy (image image' : Image ℝ) where
  motion : Motion
  gain : ℝ
  gain_pos : 0 < gain
  pixel : Fin image.width × Fin image.height ≃ Fin image'.width × Fin image'.height
  place_pixel : ∀ p, (((pixel p).1 : ℝ), ((pixel p).2 : ℝ)) =
    motion.place ((p.1 : ℝ), (p.2 : ℝ))
  get_pixel : ∀ p, image'.pixels.get (pixel p).1 (pixel p).2 =
    gain * image.pixels.get p.1 p.2

namespace Copy

open MomentsFit

variable {image image' : Image ℝ} (c : Copy image image')

/-- What becomes of weighted sums. -/
def sums (s : WeightedSums ℝ) : WeightedSums ℝ :=
  ⟨c.gain * s.flux, c.gain * c.motion.alongX s.x s.y, c.gain * c.motion.alongY s.x s.y,
    ⟨c.gain * (c.motion.turn s.second).xx, c.gain * (c.motion.turn s.second).xy,
      c.gain * (c.motion.turn s.second).yy⟩⟩

/-- What becomes of a shape. -/
def shape (s : Shape ℝ) : Shape ℝ where
  size := s.size
  centre := c.motion.place s.centre
  amplitude := c.gain * s.amplitude
  e1 := c.motion.parity * s.e1
  e2 := c.motion.sense * s.e2
  iterations := s.iterations

section Sums

variable (w : Weight ℝ) (inverse : Covariance ℝ)

theorem x_pixel (p : Fin image.width × Fin image.height) :
    ((c.pixel p).1 : ℝ) = c.motion.alongX p.1 p.2 + c.motion.x :=
  congrArg Prod.fst (c.place_pixel p)

theorem y_pixel (p : Fin image.width × Fin image.height) :
    ((c.pixel p).2 : ℝ) = c.motion.alongY p.1 p.2 + c.motion.y :=
  congrArg Prod.snd (c.place_pixel p)

theorem x_pixel_sub (p : Fin image.width × Fin image.height) (x y : ℝ) :
    (c.pixel p).1 - (c.motion.place (x, y)).1 = c.motion.alongX (p.1 - x) (p.2 - y) := by
  rw [x_pixel, Motion.place, Motion.alongX, Motion.alongX, Motion.alongX]
  ring

theorem y_pixel_sub (p : Fin image.width × Fin image.height) (x y : ℝ) :
    (c.pixel p).2 - (c.motion.place (x, y)).2 = c.motion.alongY (p.1 - x) (p.2 - y) := by
  rw [y_pixel, Motion.place, Motion.alongY, Motion.alongY, Motion.alongY]
  ring

theorem distance_pixel (p : Fin image.width × Fin image.height) :
    distance image' (c.motion.weight w) (c.motion.turn inverse) (c.pixel p) =
      distance image w inverse p := by
  rw [distance, distance, Motion.weight, x_pixel_sub, y_pixel_sub, Motion.quadratic_turn]

theorem weighted_pixel (p : Fin image.width × Fin image.height) :
    weighted image' (c.motion.weight w) (c.motion.turn inverse) (c.pixel p) =
      c.gain * weighted image w inverse p := by
  rw [weighted, weighted, distance_pixel, get_pixel, mul_ite, mul_zero, mul_assoc]

/-- A quantity of the weighted sums of a copy, from what a pixel of the image adds to it. -/
theorem apply_sumsUnder_copy (q q' : WeightedSums ℝ → ℝ)
    {f : Fin image'.width × Fin image'.height → ℝ}
    (hq' : q' (sumsUnder image' (c.motion.weight w) (c.motion.turn inverse)) =
      ∑ p, f p * weighted image' (c.motion.weight w) (c.motion.turn inverse) p)
    (hzero : q ⟨0, 0, 0, ⟨0, 0, 0⟩⟩ = 0)
    (hq : ∀ (s : WeightedSums ℝ) p (v : ℝ),
      q ⟨s.flux + v, s.x + (p.1 - w.x) * v, s.y + (p.2 - w.y) * v,
        ⟨s.second.xx + (p.1 - w.x) * (p.1 - w.x) * v,
          s.second.xy + (p.1 - w.x) * (p.2 - w.y) * v,
          s.second.yy + (p.2 - w.y) * (p.2 - w.y) * v⟩⟩ = q s + f (c.pixel p) * v) :
    q' (sumsUnder image' (c.motion.weight w) (c.motion.turn inverse)) =
      c.gain * q (sumsUnder image w inverse) := by
  rw [hq', apply_sumsUnder image w inverse q _ hzero hq, ← Equiv.sum_comp c.pixel,
    Finset.mul_sum]
  apply Finset.sum_congr rfl
  intro p _
  rw [weighted_pixel]
  ring

/-- The sums of a copy under a moved weight. -/
theorem sumsUnder_copy : sumsUnder image' (c.motion.weight w) (c.motion.turn inverse) =
    c.sums (sumsUnder image w inverse) := by
  have hflux := c.apply_sumsUnder_copy w inverse (·.flux) (·.flux) (f := fun _ => 1)
    (by simp only [flux_sumsUnder, one_mul]) rfl fun s p v => by simp only [one_mul]
  have hx := c.apply_sumsUnder_copy w inverse (fun s => c.motion.alongX s.x s.y) (·.x)
    (x_sumsUnder _ _ _) (by simp [Motion.alongX]) fun s p v => by
      simp only [Motion.weight, x_pixel_sub, Motion.alongX]
      ring
  have hy := c.apply_sumsUnder_copy w inverse (fun s => c.motion.alongY s.x s.y) (·.y)
    (y_sumsUnder _ _ _) (by simp [Motion.alongY]) fun s p v => by
      simp only [Motion.weight, y_pixel_sub, Motion.alongY]
      ring
  have hxx := c.apply_sumsUnder_copy w inverse (fun s => (c.motion.turn s.second).xx)
    (·.second.xx) (xx_sumsUnder _ _ _) (by simp [Motion.turn]) fun s p v => by
      simp only [Motion.weight, x_pixel_sub, Motion.turn, Motion.alongX]
      ring
  have hxy := c.apply_sumsUnder_copy w inverse (fun s => (c.motion.turn s.second).xy)
    (·.second.xy) (xy_sumsUnder _ _ _) (by simp [Motion.turn]) fun s p v => by
      simp only [Motion.weight, x_pixel_sub, y_pixel_sub, Motion.turn, Motion.alongX,
        Motion.alongY]
      ring
  have hyy := c.apply_sumsUnder_copy w inverse (fun s => (c.motion.turn s.second).yy)
    (·.second.yy) (yy_sumsUnder _ _ _) (by simp [Motion.turn]) fun s p v => by
      simp only [Motion.weight, y_pixel_sub, Motion.turn, Motion.alongY]
      ring
  rw [sums, ← hflux, ← hx, ← hy, ← hxx, ← hxy, ← hyy]

end Sums

section Step

variable (s : WeightedSums ℝ) (w : Weight ℝ)

theorem shift_sums : (c.sums s).shift =
    (c.motion.alongX s.shift.1 s.shift.2, c.motion.alongY s.shift.1 s.shift.2) := by
  simp only [WeightedSums.shift, sums, Scalar.real_div,
    mul_div_mul_left _ _ c.gain_pos.ne', Motion.alongX, Motion.alongY, Prod.mk.injEq]
  constructor <;> ring

theorem covariance_sums : (c.sums s).covariance = c.motion.turn s.covariance := by
  rw [WeightedSums.covariance, shift_sums, WeightedSums.covariance]
  simp only [sums, Scalar.real_div, Scalar.real_mul, Scalar.real_sub, Scalar.real_literal,
    mul_div_mul_left _ _ c.gain_pos.ne', Motion.turn, Motion.alongX, Motion.alongY,
    Covariance.mk.injEq]
  refine ⟨?_, ?_, ?_⟩ <;> ring

theorem moved_sums : (c.motion.weight w).moved (c.sums s) = c.motion.weight (w.moved s) := by
  rw [Weight.moved, shift_sums, covariance_sums, Weight.moved]
  simp only [Motion.weight, Motion.place, Motion.alongX, Motion.alongY, Scalar.real_add,
    Weight.mk.injEq, and_true]
  constructor <;> ring

theorem hasSettled_sums (fit : MomentsFit ℝ) :
    fit.hasSettled (c.motion.weight w) (c.sums s) = fit.hasSettled w s := by
  rw [hasSettled, hasSettled, shift_sums, covariance_sums, Motion.weight]
  simp only [Scalar.real_add, Scalar.real_mul, Motion.alongX_sq_add_alongY_sq,
    Motion.distance_turn, Motion.trace_turn]

end Step

section Start

theorem positivePart_pixel (p : Fin image.width × Fin image.height) :
    positivePart image' (c.pixel p) = c.gain * positivePart image p := by
  rw [positivePart, positivePart, get_pixel, mul_max_of_nonneg _ _ c.gain_pos.le, mul_zero]

theorem sum_mul_positivePart (f : Fin image'.width × Fin image'.height → ℝ) :
    ∑ q, f q * positivePart image' q =
      c.gain * ∑ p, f (c.pixel p) * positivePart image p := by
  rw [← Equiv.sum_comp c.pixel, Finset.mul_sum]
  apply Finset.sum_congr rfl
  intro p _
  rw [positivePart_pixel]
  ring

theorem positiveSpread_copy (x y : ℝ) :
    positiveSpread image' (c.motion.place (x, y)).1 (c.motion.place (x, y)).2 =
      c.gain * positiveSpread image x y := by
  rw [positiveSpread_eq, positiveSpread_eq, c.sum_mul_positivePart]
  simp only [x_pixel_sub, y_pixel_sub, Motion.alongX_sq_add_alongY_sq]

/-- The flux of the positive pixels of a copy and its first moments. -/
theorem positiveSums_copy : positiveSums image' =
    (c.gain * (positiveSums image).1,
      c.gain * (c.motion.alongX (positiveSums image).2.1 (positiveSums image).2.2 +
        c.motion.x * (positiveSums image).1),
      c.gain * (c.motion.alongY (positiveSums image).2.1 (positiveSums image).2.2 +
        c.motion.y * (positiveSums image).1)) := by
  have hflux := c.sum_mul_positivePart fun _ => 1
  have hx := c.sum_mul_positivePart fun q => q.1
  have hy := c.sum_mul_positivePart fun q => q.2
  simp only [one_mul] at hflux
  rw [positiveSums_eq, positiveSums_eq, hflux, hx, hy]
  simp only [x_pixel, y_pixel, Motion.alongX, Motion.alongY, add_mul, mul_assoc,
    Finset.sum_add_distrib, Finset.mul_sum]

/-- A fit to a copy starts from the moved weight. -/
theorem initial_copy (fit : MomentsFit ℝ) :
    fit.initial image' = (fit.initial image).map c.motion.weight := by
  rw [initial, initial, c.positiveSums_copy]
  obtain ⟨flux, sx, sy⟩ := positiveSums image
  by_cases hflux : 0 < flux
  · have hflux' : 0 < c.gain * flux := mul_pos c.gain_pos hflux
    have hx : c.gain * (c.motion.alongX sx sy + c.motion.x * flux) / (c.gain * flux) =
        (c.motion.place (sx / flux, sy / flux)).1 := by
      rw [mul_div_mul_left _ _ c.gain_pos.ne', Motion.place, Motion.alongX, Motion.alongX]
      field_simp
    have hy : c.gain * (c.motion.alongY sx sy + c.motion.y * flux) / (c.gain * flux) =
        (c.motion.place (sx / flux, sy / flux)).2 := by
      rw [mul_div_mul_left _ _ c.gain_pos.ne', Motion.place, Motion.alongY, Motion.alongY]
      field_simp
    have hround : ∀ size : ℝ, c.motion.turn ⟨size, 0, size⟩ = ⟨size, 0, size⟩ := by
      intro size
      obtain ⟨-, hturn⟩ | ⟨-, hturn⟩ := c.motion.turn_eq_or
      · rw [hturn, mul_zero]
      · rw [hturn, mul_zero]
    simp only [Scalar.real_zero, Scalar.real_one, Scalar.real_div, hflux, hflux', decide_true,
      Bool.not_true, Bool.false_eq_true, if_false, hx, hy, positiveSpread_copy,
      Scalar.real_mul, zero_mul, one_mul, mul_left_comm _ c.gain,
      mul_div_mul_left _ _ c.gain_pos.ne', Except.map, Motion.weight, hround]
  · have hflux' : ¬0 < c.gain * flux := by
      rwa [mul_pos_iff_of_pos_left c.gain_pos]
    simp [hflux, hflux', Except.map]

end Start

section Run

variable {fit : MomentsFit ℝ} {w v : Weight ℝ}

theorem shapeOf_copy (w : Weight ℝ) (iterations : ℕ) :
    shapeOf image' (c.motion.weight w) iterations =
      (shapeOf image w iterations).map c.shape := by
  have hinverse := c.motion.inverse?_turn w.covariance
  cases hw : w.covariance.inverse? with
  | none =>
      rw [hw] at hinverse
      rw [shapeOf_eq_error_iff.2 ⟨hw, rfl⟩, shapeOf_eq_error_iff.2 ⟨hinverse, rfl⟩]
      rfl
  | some inverse =>
      rw [hw] at hinverse
      rw [shapeOf_eq_ok_iff.2 ⟨inverse, hw, rfl⟩, shapeOf_eq_ok_iff.2 ⟨_, hinverse, rfl⟩,
        sumsUnder_copy, Except.map, shape]
      simp only [Motion.weight, sums, Motion.det_turn, Motion.trace_turn, Scalar.real_sub,
        Scalar.real_mul, Scalar.real_div, Scalar.real_literal, Motion.difference_turn,
        Motion.xy_turn, mul_div_assoc, mul_left_comm (2 : ℝ)]

theorem flux_sums_pos_iff {s : WeightedSums ℝ} : 0 < (c.sums s).flux ↔ 0 < s.flux :=
  mul_pos_iff_of_pos_left c.gain_pos

theorem movesTo_copy (hmoves : MovesTo image w v) :
    MovesTo image' (c.motion.weight w) (c.motion.weight v) := by
  obtain ⟨inverse, hinverse, hflux, hpositive, rfl⟩ := hmoves
  rw [Scalar.real_zero] at hflux
  refine ⟨c.motion.turn inverse, ?_, ?_, ?_, ?_⟩
  · rw [Motion.weight, Motion.inverse?_turn, hinverse, Option.map_some]
  · rwa [sumsUnder_copy, Scalar.real_zero, flux_sums_pos_iff]
  · rwa [sumsUnder_copy, covariance_sums, Motion.isPositive_turn]
  · rw [sumsUnder_copy, moved_sums]

/-- An iteration on the copy does the same as on the image, if the test of the bounds has the same
outcome. -/
theorem step_copy (hbounds : ∀ v, MovesTo image w v →
      isOutside image' (c.motion.weight v) = isOutside image v) :
    fit.step image' (c.motion.weight w) =
      (fit.step image w).map (Prod.map c.motion.weight id) := by
  have hinverse := c.motion.inverse?_turn w.covariance
  cases hw : w.covariance.inverse? with
  | none =>
      rw [hw] at hinverse
      rw [step_of_inverse_eq_none hw, step_of_inverse_eq_none hinverse]
      rfl
  | some inverse =>
      rw [hw] at hinverse
      rw [step_of_inverse hw, step_of_inverse hinverse, sumsUnder_copy, covariance_sums,
        moved_sums, hasSettled_sums]
      simp only [Scalar.real_zero, Scalar.real_lt, flux_sums_pos_iff, Motion.isPositive_turn]
      by_cases hflux : 0 < (sumsUnder image w inverse).flux
      · by_cases hpositive : (sumsUnder image w inverse).covariance.IsPositive
        · rw [if_pos hflux, if_pos hpositive, if_pos hflux, if_pos hpositive,
            hbounds _ ⟨inverse, hw, by simpa using hflux, hpositive, rfl⟩]
          split_ifs <;> rfl
        · rw [if_pos hflux, if_neg hpositive, if_pos hflux, if_neg hpositive]
          rfl
      · rw [if_neg hflux, if_neg hflux]
        rfl

variable (fit)

/-- A fit to a copy runs in step with the fit to the image, if the tests of the bounds have the
same outcomes. -/
theorem find_copy (hbounds : ∀ v, fit.Tests image v →
      isOutside image' (c.motion.weight v) = isOutside image v) :
    fit.find image' = (fit.find image).map c.shape :=
  find_eq_map_of_steps (c.initial_copy fit) c.shapeOf_copy fun n w hn hw =>
    c.step_copy fun v hmoves => hbounds v ⟨n, w, hn, hw, hmoves⟩

/-- The first weight on whose bounds the two frames disagree is out of bounds in one of them. -/
theorem outOfBounds_of_disagree (hdisagree : ∃ v, fit.Tests image v ∧
      isOutside image' (c.motion.weight v) ≠ isOutside image v) :
    fit.find image = .error .outOfBounds ∨ fit.find image' = .error .outOfBounds := by
  classical
  have hexists : ∃ n w v, n < fit.maxIterations ∧ fit.Reaches image n w ∧
      MovesTo image w v ∧ isOutside image' (c.motion.weight v) ≠ isOutside image v := by
    obtain ⟨v, ⟨n, w, hn, hw, hmoves⟩, hne⟩ := hdisagree
    exact ⟨n, w, v, hn, hw, hmoves, hne⟩
  obtain ⟨w, v, hn, hw, hmoves, hne⟩ := Nat.find_spec hexists
  have hw' : fit.Reaches image' (Nat.find hexists) (c.motion.weight w) := by
    refine hw.map (c.initial_copy fit) fun k u hk hu => c.step_copy fun v hmoves => ?_
    by_contra hne
    exact Nat.find_min hexists hk ⟨u, v, by omega, hu, hmoves, hne⟩
  cases houtside : isOutside image v with
  | true => exact .inl (hmoves.find_eq_outOfBounds hn hw houtside)
  | false =>
      rw [houtside, ne_eq, Bool.not_eq_false] at hne
      exact .inr ((c.movesTo_copy hmoves).find_eq_outOfBounds hn hw' hne)

/-- A fit to a copy corresponds to the fit to the image, unless the frames disagree on the bounds
of a weight and only one of the two fits ends out of bounds. -/
theorem find_eq_map_iff : fit.find image' = (fit.find image).map c.shape ↔
    ∀ v, fit.Tests image v → isOutside image' (c.motion.weight v) ≠ isOutside image v →
      fit.find image = .error .outOfBounds ∧ fit.find image' = .error .outOfBounds := by
  constructor
  · intro hlaw v htests hne
    obtain hfind | hfind := c.outOfBounds_of_disagree fit ⟨v, htests, hne⟩
    · rw [hfind] at hlaw
      exact ⟨hfind, hlaw⟩
    · exact ⟨eq_error_of_map_eq_error (hlaw.symm.trans hfind), hfind⟩
  · intro hboth
    by_cases hagree : ∀ v, fit.Tests image v →
        isOutside image' (c.motion.weight v) = isOutside image v
    · exact c.find_copy fit hagree
    · push Not at hagree
      obtain ⟨v, htests, hne⟩ := hagree
      obtain ⟨hfind, hfind'⟩ := hboth v htests hne
      rw [hfind, hfind']
      rfl

end Run

end Copy

end Seeing
