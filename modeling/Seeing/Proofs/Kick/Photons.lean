import Seeing.Proofs.Image
import Seeing.Proofs.Kick.Cells
import Seeing.Proofs.Kick.Peak

/-!
# The photons of an image

The deviates of a stream fix where its photons land, three of them for each photon, so
an exposure is a fold over these places, `Kick.expose_eq`. The fold keeps the pixels
equal to the number of photons they cover and counts those that no pixel covers,
`Exposed.after_spec`, whatever the order of the photons.
-/

namespace Seeing

section Stream

variable {α : Type} [Scalar α] [RandomSource α] (f : FocalCells α) (s : RandomSource.State α)

/-- The share of the flux by which the photon number `t` of a stream chooses its cell. -/
def FocalCells.shareAt (t : ℕ) : α := RandomSource.uniformAt s (3 * t) * f.total

/-- Where the photon number `t` of a stream lands. -/
def FocalCells.landingAt (t : ℕ) : α × α :=
  f.landing (RandomSource.uniformAt s (3 * t)) (RandomSource.uniformAt s (3 * t + 1))
    (RandomSource.uniformAt s (3 * t + 2))

/-- The image after the first photons of a stream. -/
def Exposed.after (flux : α) (start : Exposed α) : ℕ → Exposed α
  | 0 => start
  | t + 1 => (after flux start t).add flux (f.landingAt s t).1 (f.landingAt s t).2

theorem Kick.drawLanding_afterUniforms (t : ℕ) :
    Kick.drawLanding f (RandomSource.afterUniforms s (3 * t)) =
      (f.landingAt s t, RandomSource.afterUniforms s (3 * (t + 1))) := rfl

/-- An exposure draws three deviates for each photon. -/
theorem Kick.expose_eq (flux : α) (count : ℕ) (start : Exposed α) :
    Kick.expose f flux count start s =
      (Exposed.after f s flux start count, RandomSource.afterUniforms s (3 * count)) := by
  induction count with
  | zero => rfl
  | succ t ih =>
      rw [Kick.expose] at ih ⊢
      rw [Nat.fold_succ, ih]
      simp only [Kick.drawLanding_afterUniforms]
      rfl

end Stream

namespace Exposed

theorem add_eq {α : Type} [Scalar α] (e : Exposed α) (flux x y : α) :
    e.add flux x y = ⟨(e.image.accumulate x y flux).1,
      e.lost + if (e.image.accumulate x y flux).2 then 0 else 1⟩ := by
  rw [add, Image.accumulate]
  cases e.image.pixelAt? x y <;> rfl

/-- A photon leaves its flux in the image or is lost. -/
theorem flux_add (e : Exposed ℝ) (flux x y : ℝ) :
    (e.add flux x y).image.flux + flux * (e.add flux x y).lost =
      e.image.flux + flux * e.lost + flux := by
  rw [add_eq, Image.flux_accumulate]
  split_ifs <;> push_cast <;> ring

variable {image : Image ℝ} (hscale : 0 < image.scale)

include hscale in
/-- A photon adds its flux to the pixel that covers it, and is lost if there is none. -/
theorem add_spec (pixels : Grid image.width image.height ℝ) (lost : ℕ) (flux x y : ℝ) :
    ∃ pixels' : Grid image.width image.height ℝ,
      add ⟨{ image with pixels := pixels }, lost⟩ flux x y =
          ⟨{ image with pixels := pixels' },
            lost + if ∀ i j, ¬image.Covers i j x y then 1 else 0⟩ ∧
        ∀ i j, pixels'.get i j =
          pixels.get i j + if image.Covers i j x y then flux else 0 := by
  obtain ⟨pixels', haccumulate, hget⟩ := Image.accumulate_eq hscale pixels x y flux
  refine ⟨pixels', ?_, hget⟩
  rw [add_eq, haccumulate]
  by_cases hcovers : ∃ i j, image.Covers i j x y
  · simp [hcovers]
  · simp [hcovers]

variable [RandomSource ℝ] (f : FocalCells ℝ) (s : RandomSource.State ℝ)

theorem flux_after (flux : ℝ) (start : Exposed ℝ) (count : ℕ) :
    (after f s flux start count).image.flux + flux * (after f s flux start count).lost =
      start.image.flux + flux * start.lost + flux * count := by
  induction count with
  | zero => simp [after]
  | succ t ih =>
      rw [after, flux_add, ih]
      push_cast
      ring

include hscale in
/-- The pixels hold the flux of the photons that they cover, the others are lost. -/
theorem after_spec (flux : ℝ) (count : ℕ) :
    ∃ pixels : Grid image.width image.height ℝ,
      after f s flux ⟨image, 0⟩ count = ⟨{ image with pixels := pixels },
          Nat.count (fun t => ∀ i j,
            ¬image.Covers i j (f.landingAt s t).1 (f.landingAt s t).2) count⟩ ∧
        ∀ i j, pixels.get i j = image.pixels.get i j + flux *
          Nat.count (fun t => image.Covers i j (f.landingAt s t).1 (f.landingAt s t).2)
            count := by
  induction count with
  | zero => exact ⟨image.pixels, rfl, by simp⟩
  | succ t ih =>
      obtain ⟨pixels, hafter, hpixels⟩ := ih
      obtain ⟨pixels', hadd, hpixels'⟩ := add_spec hscale pixels _ flux
        (f.landingAt s t).1 (f.landingAt s t).2
      refine ⟨pixels', ?_, ?_⟩
      · rw [after, hafter, hadd, Nat.count_succ]
      · intro i j
        rw [hpixels', hpixels, Nat.count_succ]
        split_ifs
        · push_cast
          ring
        · simp

include hscale in
theorem shape_after (flux : ℝ) (count : ℕ) :
    (after f s flux ⟨image, 0⟩ count).image.width = image.width ∧
      (after f s flux ⟨image, 0⟩ count).image.height = image.height ∧
      (after f s flux ⟨image, 0⟩ count).image.scale = image.scale := by
  obtain ⟨pixels, hafter, -⟩ := after_spec hscale f s flux count
  rw [hafter]
  exact ⟨rfl, rfl, rfl⟩

/-- The image shows the first photons of a number of places, all of the same flux. -/
structure Shows (e : Exposed ℝ) (count : ℕ) (landing : ℕ → ℝ × ℝ) : Prop where
  /-- A place lies in one pixel or outside the image. -/
  covers : ∀ t, (∃! pixel : Fin e.image.width × Fin e.image.height,
      e.image.Covers pixel.1 pixel.2 (landing t).1 (landing t).2) ∨
    ∀ i j, ¬e.image.Covers i j (landing t).1 (landing t).2
  pixels_eq : ∀ i j, count * e.image.pixels.get i j =
    Nat.count (fun t => e.image.Covers i j (landing t).1 (landing t).2) count
  lost_eq : e.lost =
    Nat.count (fun t => ∀ i j, ¬e.image.Covers i j (landing t).1 (landing t).2) count
  /-- What is not in the image is lost. -/
  flux_add_lost : e.image.flux + e.lost / count = 1

/-- From an image without flux, photons that share a flux of one are shown. -/
theorem shows_after {width height : ℕ} {scale : ℝ}
    (hblank : Image.blank width height scale = .ok image) {count : ℕ} (hcount : 1 ≤ count) :
    (after f s (1 / count) ⟨image, 0⟩ count).Shows count (f.landingAt s) := by
  have hcount' : (count : ℝ) ≠ 0 := by
    have hpositive : 0 < count := hcount
    positivity
  obtain ⟨hpositive, -⟩ := Image.shape_of_blank hblank
  have hbalance := flux_after f s (1 / count) ⟨image, 0⟩ count
  obtain ⟨pixels, hafter, hpixels⟩ := after_spec hpositive f s (1 / count) count
  have hcounts : ∀ i j, count * pixels.get i j =
      Nat.count (fun t => image.Covers i j (f.landingAt s t).1 (f.landingAt s t).2)
        count := by
    intro i j
    rw [hpixels, Image.get_of_blank hblank, zero_add, mul_left_comm, ← mul_assoc,
      one_div_mul_cancel hcount', one_mul]
  rw [Image.flux_of_blank hblank, one_div_mul_cancel hcount', Nat.cast_zero, mul_zero,
    add_zero, zero_add, one_div_mul_eq_div] at hbalance
  rw [hafter] at hbalance ⊢
  exact
    { covers := fun t => Image.existsUnique_covers_or_forall_not hpositive _ _
      pixels_eq := hcounts
      lost_eq := rfl
      flux_add_lost := hbalance }

end Exposed

namespace FocalCells

variable [RandomSource ℝ] {f : FocalCells ℝ} {s : RandomSource.State ℝ}

/-- The photon number `t` of a stream is sent to a cell of the values: its first deviate
chooses the cell, the other two its place in the cell. -/
structure Sends (f : FocalCells ℝ) (values : Array ℝ) (s : RandomSource.State ℝ) (t : ℕ)
    (cell : ℕ) : Prop where
  cellAt_eq : f.cellAt (f.shareAt s t) = cell
  /-- The bound on the cells has no part in the choice. -/
  firstBeyond_eq : f.firstBeyond (f.shareAt s t) = cell
  fluxBefore_le : f.fluxBefore cell ≤ f.shareAt s t
  lt_fluxBefore : f.shareAt s t < f.fluxBefore (cell + 1)
  /-- The cell has flux. -/
  value_pos : ∃ hcell : cell < values.size, 0 < values[cell]
  x_eq : (f.landingAt s t).1 = ((cell % f.side : ℕ) - (f.side / 2 : ℕ) +
    (RandomSource.uniformAt s (3 * t + 1) - 1 / 2)) * f.scale
  y_eq : (f.landingAt s t).2 = ((cell / f.side : ℕ) - (f.side / 2 : ℕ) +
    (RandomSource.uniformAt s (3 * t + 2) - 1 / 2)) * f.scale
  /-- The photon lands within half a cell of the middle of the cell. -/
  abs_x_sub_le :
    |(f.landingAt s t).1 - ((cell % f.side : ℕ) - (f.side / 2 : ℕ)) * f.scale| ≤ |f.scale| / 2
  abs_y_sub_le :
    |(f.landingAt s t).2 - ((cell / f.side : ℕ) - (f.side / 2 : ℕ)) * f.scale| ≤ |f.scale| / 2

theorem shareAt_mem (hs : RandomSource.IsUniform s) (htotal : 0 < f.total) (t : ℕ) :
    0 ≤ f.shareAt s t ∧ f.shareAt s t < f.total := by
  obtain ⟨hnonneg, hlt⟩ := hs (3 * t)
  exact ⟨mul_nonneg hnonneg htotal.le, mul_lt_of_lt_one_left htotal hlt⟩

theorem exists_sends {values : Array ℝ} (hf : f.cumulated = cumulative values)
    (hsize : values.size = f.side * f.side) (hvalues : ∀ x ∈ values, 0 ≤ x)
    (hflux : 0 < Scalar.sumArray values) (hs : RandomSource.IsUniform s) (t : ℕ) :
    ∃ cell, f.Sends values s t cell := by
  have htotal : 0 < f.total := by
    rwa [total_eq_sumArray hf]
  obtain ⟨hnonneg, hbelow⟩ := shareAt_mem hs htotal t
  obtain ⟨hfirst, hstep, hcell⟩ := cellAt_spec hf hvalues hsize hnonneg hbelow
  exact ⟨_,
    { cellAt_eq := rfl
      firstBeyond_eq := hfirst.symm
      fluxBefore_le := hstep.1
      lt_fluxBefore := hstep.2
      value_pos := hcell
      x_eq := f.coordinate_eq _ _
      y_eq := f.coordinate_eq _ _
      abs_x_sub_le := f.abs_coordinate_sub_le _ (hs _).1 (hs _).2
      abs_y_sub_le := f.abs_coordinate_sub_le _ (hs _).1 (hs _).2 }⟩

end FocalCells

namespace Kick

section Shoot

variable [RandomSource ℝ] (k : Kick ℝ)

theorem shoot_eq {image : Image ℝ}
    (hblank : Image.blank k.imageSide k.imageSide k.imageScale = .ok image)
    (values : Array ℝ) (s : RandomSource.State ℝ) :
    k.shoot values s =
      (.ok (Exposed.after (k.focalCells values) s (1 / k.photonCount) ⟨image, 0⟩
          k.photonCount),
        RandomSource.afterUniforms s (3 * k.photonCount)) := by
  have hrecip : Scalar.recip (Scalar.ofNat k.photonCount) = 1 / (k.photonCount : ℝ) := by
    simp [Scalar.recip]
  have hexpose := expose_eq (k.focalCells values) s (1 / (k.photonCount : ℝ))
    k.photonCount ⟨image, 0⟩
  rw [shoot, hblank]
  change ((.ok (expose _ _ _ _ s).1, (expose _ _ _ _ s).2) : Except _ _ × _) = _
  rw [hrecip, hexpose]

/-- An image is rendered with three deviates for each photon, one for its cell and two for
its place there. Every photon is sent to a cell with flux. It lies in one pixel or is
lost, and every pixel holds the number of photons that lie in it, as a part of all
photons. The kick is one that was built; what does not concern the pixels may have
changed since. -/
theorem shoot_photons {settings : KickSettings ℝ} {built : Kick ℝ}
    (hbuilt : settings.build = .ok built) (hside : k.imageSide = built.imageSide)
    (hscale : k.imageScale = built.imageScale) (hcount : 1 ≤ k.photonCount)
    {values : Array ℝ} (hsize : values.size = k.pupil.side * k.pupil.side)
    (hvalues : ∀ x ∈ values, 0 ≤ x) (hflux : 0 < Scalar.sumArray values)
    {s : RandomSource.State ℝ} (hs : RandomSource.IsUniform s) :
    (∀ t, ∃ cell, (k.focalCells values).Sends values s t cell) ∧
      ∃ exposed, k.shoot values s =
          (.ok exposed, RandomSource.afterUniforms s (3 * k.photonCount)) ∧
        (exposed.image.width = k.imageSide ∧ exposed.image.height = k.imageSide ∧
          exposed.image.scale = k.imageScale) ∧
        exposed.Shows k.photonCount ((k.focalCells values).landingAt s) := by
  obtain ⟨-, -, ⟨image, himage⟩, -, hk⟩ := KickSettings.build_eq_ok_iff.1 hbuilt
  have hblank : Image.blank k.imageSide k.imageSide k.imageScale = .ok image := by
    rw [hside, hscale, hk]
    exact himage
  obtain ⟨hpositive, hwidth, hheight, hscale'⟩ := Image.shape_of_blank hblank
  obtain ⟨hwidth', hheight', hscale''⟩ := Exposed.shape_after hpositive
    (k.focalCells values) s (1 / k.photonCount) k.photonCount
  exact ⟨FocalCells.exists_sends rfl hsize hvalues hflux hs, _, k.shoot_eq hblank values s,
    ⟨hwidth'.trans hwidth, hheight'.trans hheight, hscale''.trans hscale'⟩,
    Exposed.shows_after _ s hblank hcount⟩

end Shoot

/-- If the only cell with flux is the third of sixteen, all photons are sent there, also
the first one, whose share of the flux is zero. Seven of them take the first twenty-one
deviates of the counting source. -/
theorem shoot_photons_coarse :
    letI := countingSource
    let values : Array ℝ := .ofFn fun i : Fin 16 => if i = 2 then 1 else 0
    ∃ k : Kick ℝ, KickSettings.coarse.build = .ok k ∧
      values.size = k.pupil.side * k.pupil.side ∧ (∀ x ∈ values, 0 ≤ x) ∧
      0 < Scalar.sumArray values ∧
      (∀ t, (k.focalCells values).cellAt ((k.focalCells values).shareAt (0 : ℕ) t) = 2) ∧
      ∃ exposed, Kick.shoot { k with photonCount := 7 } values (0 : ℕ) =
          (.ok exposed, (21 : ℕ)) ∧
        exposed.Shows 7 ((k.focalCells values).landingAt (0 : ℕ)) := by
  intro values
  obtain ⟨k, hk⟩ := KickSettings.build_coarse
  have hsize : values.size = k.pupil.side * k.pupil.side := by
    rw [KickSettings.side_coarse hk]
    simp [values]
  have hvalues : ∀ x ∈ values, 0 ≤ x := by
    intro x hx
    obtain ⟨i, rfl⟩ := Array.mem_ofFn.1 hx
    split_ifs <;> norm_num
  have hflux : 0 < Scalar.sumArray values := by
    rw [Scalar.sumArray_eq_sumList, Scalar.sumList_eq_sum, Array.toList_ofFn, List.sum_ofFn]
    simp
  obtain ⟨hsends, exposed, hshoot, -, hshows⟩ :=
    @shoot_photons countingSource { k with photonCount := 7 } KickSettings.coarse k hk rfl
      rfl (by norm_num) values hsize hvalues hflux (0 : ℕ) (isUniform_countingSource 0)
  refine ⟨k, hk, hsize, hvalues, hflux, ?_, exposed, hshoot, hshows⟩
  intro t
  obtain ⟨cell, hcell, -, -, -, ⟨hlt, hpos⟩, -⟩ := hsends t
  have hthird : cell = 2 := by
    by_contra hne
    have hzero : values[cell] = 0 := by
      simp [values, Fin.ext_iff, hne]
    exact absurd hpos (hzero ▸ lt_irrefl _)
  rw [← hthird]
  exact hcell

end Kick

end Seeing
