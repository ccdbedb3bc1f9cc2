import Seeing.Proofs.Fourier.Symmetry
import Seeing.Proofs.Kick.Attenuation
import Seeing.Proofs.Pupil.Geometry

/-!
# The symmetry of a second kick

The annulus is symmetric about the middle of its square, and so the number of its pairs of samples
is about the first lag, `nodeSymmetric_overlap`. The lag of half a side is its own opposite, and
its square does not tell from which side it is counted, so that the structure function is symmetric
about the first lag as well. With both, the transfer function is real and symmetric. Then its
transform is, too, and nothing is lost with the imaginary part: `im_transform_transfer`.
-/

open Complex

namespace Seeing

theorem rev_add {n : ℕ} [NeZero n] (p a : Fin n) : (p + a).rev = p.rev + -a := by
  rw [← natCast_eq_iff, natCast_add, natCast_neg, natCast_rev, natCast_rev, natCast_add]
  ring

namespace Kick

/-- Opposite lags have opposite signs, except for the one of half a side, which is its own
opposite. -/
theorem sq_lag_neg {n : ℕ} [NeZero n] (hn : Even n) (i : Fin n) :
    (lag n (-i : Fin n) : ℝ) ^ 2 = lag n i ^ 2 := by
  by_cases hzero : i = 0
  · rw [hzero, neg_zero]
  · obtain ⟨m, rfl⟩ := hn
    have hpos : i.val ≠ 0 := fun h => hzero (Fin.ext h)
    have hlt := i.isLt
    rw [lag_eq, lag_eq, Fin.val_neg, if_neg hzero]
    have hvalue : ((m + m - i.val : ℕ) : ℤ) = m + m - i := by
      omega
    rw [hvalue]
    -- half a side is counted backwards from either side, otherwise only one of the two is
    rcases lt_trichotomy i.val m with hlower | hhalf | hupper
    · rw [if_neg (by omega), if_pos (by omega)]
      push_cast
      ring
    · rw [if_neg (by omega), if_neg (by omega), hhalf]
      push_cast
      ring
    · rw [if_pos (by omega), if_neg (by omega)]
      push_cast
      ring

variable {k : Kick ℝ}

theorem mirrorSymmetric_aperture (hmask : MirrorSymmetric k.pupil.mask.get) :
    MirrorSymmetric k.aperture where
  rev_column i j := by
    rw [aperture, aperture, hmask.rev_column]
  exchange i j := by
    rw [aperture, aperture, hmask.exchange]

section Transfer

variable [NeZero k.pupil.side]

/-- Pairs of samples are mirrored with the samples. -/
theorem nodeSymmetric_overlap (hmask : MirrorSymmetric k.pupil.mask.get) :
    NodeSymmetric k.overlap where
  neg_column a b := by
    have haperture := mirrorSymmetric_aperture hmask
    rw [overlap, overlap]
    apply Finset.sum_congr rfl
    intro q _
    rw [← Equiv.sum_comp Fin.revPerm]
    apply Finset.sum_congr rfl
    intro p _
    rw [Fin.revPerm_apply, ← rev_add, haperture.rev_column, haperture.rev_column]
  exchange a b := by
    have haperture := mirrorSymmetric_aperture hmask
    rw [overlap, overlap, Finset.sum_comm]
    apply Finset.sum_congr rfl
    intro p _
    apply Finset.sum_congr rfl
    intro q _
    rw [haperture.exchange, haperture.exchange p q]

theorem nodeSymmetric_structureGrid (heven : Even k.pupil.side) (cutoff : ℝ) :
    NodeSymmetric (k.structureGrid cutoff).get where
  neg_column i j := by
    simp only [get_structureGrid, place, separation, mul_pow, sq_lag_neg heven]
  exchange i j := by
    simp only [get_structureGrid, place, separation, add_comm]

theorem nodeSymmetric_attenuated (heven : Even k.pupil.side)
    (hmask : MirrorSymmetric k.pupil.mask.get) (cutoff : ℝ) :
    NodeSymmetric (k.attenuated cutoff) where
  neg_column a b := by
    rw [attenuated, attenuated, (nodeSymmetric_structureGrid heven cutoff).neg_column,
      (nodeSymmetric_overlap hmask).neg_column]
  exchange a b := by
    rw [attenuated, attenuated, (nodeSymmetric_structureGrid heven cutoff).exchange,
      (nodeSymmetric_overlap hmask).exchange]

section Built

variable (heven : Even k.pupil.side) (hmask : MirrorSymmetric k.pupil.mask.get) (cutoff : ℝ)

include heven hmask

/-- What the image drops of the transform is zero. -/
theorem im_transform_transfer (i j : Fin k.pupil.side) :
    (((k.transfer cutoff).transform .forward).get i j).im = 0 := by
  have hreal := (nodeSymmetric_attenuated heven hmask cutoff).im_doubleSum .forward i j
  rw [← toComplex_transfer, ← Grid.toComplex_transform] at hreal
  exact hreal

theorem nodeSymmetric_rawImage : NodeSymmetric (k.rawImage cutoff).get := by
  have hsum := ((nodeSymmetric_attenuated heven hmask cutoff).comp ofReal).doubleSum .forward
  have hget : (k.rawImage cutoff).get = fun i j => max
      (Direction.forward.doubleSum (fun a b => (k.attenuated cutoff a b : ℂ)) i j).re 0 := by
    funext i j
    rw [get_rawImage]
  rw [hget]
  exact hsum.comp fun z => max z.re 0

end Built

end Transfer

/-- The transform of the transfer function is real, and the image of a point by a second kick is
symmetric about its middle. Counted from there around the edges, it is its own mirror image in
either direction and along the diagonal. The pupil is one that was built; the Fried parameter and
the wavelength may have changed since. -/
theorem focalImage_symmetric (k : Kick ℝ) {settings : KickSettings ℝ} {built : Kick ℝ}
    (hbuilt : settings.build = .ok built) (hpupil : k.pupil = built.pupil) (cutoff : ℝ) :
    (∀ i j, (((k.transfer cutoff).transform .forward).get i j).im = 0) ∧
      ∃ hside : 0 < k.pupil.side, ∀ a b : ℤ,
        (k.focalImage cutoff).fromMiddle hside (-a) b =
            (k.focalImage cutoff).fromMiddle hside a b ∧
          (k.focalImage cutoff).fromMiddle hside a (-b) =
            (k.focalImage cutoff).fromMiddle hside a b ∧
          (k.focalImage cutoff).fromMiddle hside b a =
            (k.focalImage cutoff).fromMiddle hside a b := by
  obtain ⟨-, -, -, hbuild, -⟩ := KickSettings.build_eq_ok_iff.1 hbuilt
  rw [← hpupil] at hbuild
  have heven := PupilSettings.even_side hbuild
  have hmask := PupilSettings.mirrorSymmetric_mask hbuild
  have hside := k.pupil.side_pos (PupilSettings.samples_pos hbuild)
  have : NeZero k.pupil.side := ⟨hside.ne'⟩
  have hraw := nodeSymmetric_rawImage heven hmask cutoff
  have hfocal : ∀ a b, (k.focalImage cutoff).fromMiddle hside a b =
      (k.rawImage cutoff).get (Grid.cellAt hside a) (Grid.cellAt hside b) /
        Scalar.sumArray (k.rawImage cutoff).toArray := by
    intro a b
    rw [← Grid.fromMiddle_recentre, focalImage, Grid.fromMiddle, Grid.get_map, Grid.fromMiddle]
  refine ⟨im_transform_transfer heven hmask cutoff, hside, fun a b => ?_⟩
  simp only [hfocal, cellAt_neg]
  refine ⟨?_, ?_, ?_⟩
  · rw [hraw.neg_column]
  · rw [hraw.neg_row]
  · rw [hraw.exchange]

/-- Through the coarse pupil, the two columns next to the middle are the same, and so is the row
next to it. -/
theorem focalImage_symmetric_coarse : ∃ k : Kick ℝ, KickSettings.coarse.build = .ok k ∧
    k.pupil.side = 4 ∧
    (∀ i j, (((k.transfer 1).transform .forward).get i j).im = 0) ∧
    ∃ hside : 0 < k.pupil.side, ∀ b : ℤ,
      (k.focalImage 1).fromMiddle hside (-1) b = (k.focalImage 1).fromMiddle hside 1 b ∧
        (k.focalImage 1).fromMiddle hside b 1 = (k.focalImage 1).fromMiddle hside 1 b := by
  obtain ⟨k, hk⟩ := KickSettings.build_coarse
  obtain ⟨hreal, hside, hsymmetric⟩ := focalImage_symmetric k hk rfl 1
  exact ⟨k, hk, KickSettings.side_coarse hk, hreal, hside,
    fun b => ⟨(hsymmetric 1 b).1, (hsymmetric 1 b).2.2⟩⟩

end Kick

end Seeing
