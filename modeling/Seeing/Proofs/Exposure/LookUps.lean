import Seeing.Proofs.Exposure.Diffraction

/-!
# Where a long exposure reads its focal grid

The focal grid of a pupil that is padded and sampled for the field is at least twice as wide as the
image, and it has at least four nodes along a side. Half of the image is then a quarter of the grid,
so that every place at which a pixel reads the grid lies more than a cell away from the edges:
`mem_Ioo_of_mem_lookUps`. Nothing outside the grid is read, and no pixel is darker than the nodes.
-/

namespace Seeing

namespace Exposure

/-- The places of the focal grid that are looked up for the pixel in column `i` and row `j`. -/
noncomputable def lookUps (e : Exposure ℝ) (i j : ℕ) : List (ℝ × ℝ) :=
  Image.lookUps e.pupil.side (e.pupil.focalScale e.wavelength) e.imageSide e.imageScale i j

/-- The area of a place in cells of the focal grid. -/
noncomputable def lookUpArea (e : Exposure ℝ) : ℝ :=
  (e.imageScale / Image.subdivisions / e.pupil.focalScale e.wavelength) ^ 2

theorem length_lookUps (e : Exposure ℝ) (i j : ℕ) : (e.lookUps i j).length = 16 :=
  Image.length_lookUps _ _ _ i j

section Built

variable {s : ExposureSettings ℝ} {e : Exposure ℝ} (hbuild : s.build = .ok e)

include hbuild

theorem resample_eq_ok (focal : Grid e.pupil.side e.pupil.side ℝ) :
    ∃ hside : 0 < e.imageSide, e.resample focal = .ok
      { width := e.imageSide
        height := e.imageSide
        scale := e.imageScale
        pixels := .ofFn fun i j => ((e.lookUps i j).map fun place =>
          Image.interpolate focal place.1 place.2).sum * e.lookUpArea
        width_pos := hside
        height_pos := hside } := by
  obtain ⟨hfocal, hside, hpixel⟩ := pos_of_build hbuild
  have harea : Scalar.square (e.imageScale / Scalar.ofNat Image.subdivisions /
      e.pupil.focalScale e.wavelength) = e.lookUpArea := by
    simp [Scalar.square, lookUpArea, sq]
  refine ⟨hside, ?_⟩
  rw [resample, Image.resample_eq_ok focal _ _ _ hfocal hside hpixel, ← harea]
  simp only [Image.sampledSum_eq_sum_lookUps]
  rfl

theorem mem_Ioo_of_mem_lookUps (hpadding : 1 ≤ s.pupil.padding)
    (hoversampling : 1 ≤ s.pupil.oversampling) {i j : Fin e.imageSide} {place : ℝ × ℝ}
    (hplace : place ∈ e.lookUps i j) :
    place.1 ∈ Set.Ioo 1 ((e.pupil.side : ℝ) - 1) ∧
      place.2 ∈ Set.Ioo 1 ((e.pupil.side : ℝ) - 1) := by
  obtain ⟨hfocal, -, hscale⟩ := pos_of_build hbuild
  obtain ⟨-, -, hpupil, -, -⟩ := ExposureSettings.build_eq_ok_iff.1 hbuild
  have hinside := Image.gridPlace_mem_Ioo (PupilSettings.even_side hpupil)
    (PupilSettings.four_le_side hpupil hoversampling) hfocal hscale
    (two_mul_width_le hbuild hpadding)
  rw [lookUps, Image.mem_lookUps_iff] at hplace
  obtain ⟨p, q, rfl⟩ := hplace
  exact ⟨hinside i p, hinside j q⟩

/-- A place that is looked up lies between four nodes, whatever their values. -/
theorem exists_cell_of_mem_lookUps (hpadding : 1 ≤ s.pupil.padding)
    (hoversampling : 1 ≤ s.pupil.oversampling) {i j : Fin e.imageSide} {place : ℝ × ℝ}
    (hplace : place ∈ e.lookUps i j) :
    ∃ (hi : ⌊place.1⌋₊ + 1 < e.pupil.side) (hj : ⌊place.2⌋₊ + 1 < e.pupil.side),
      ∀ focal : Grid e.pupil.side e.pupil.side ℝ, Image.interpolate focal place.1 place.2 =
        Image.cellMean focal hi hj (place.1 - ⌊place.1⌋₊) (place.2 - ⌊place.2⌋₊) := by
  obtain ⟨⟨hu, hun⟩, hv, hvn⟩ := mem_Ioo_of_mem_lookUps hbuild hpadding hoversampling hplace
  have hu₀ : 0 ≤ place.1 := by linarith
  have hv₀ : 0 ≤ place.2 := by linarith
  exact ⟨Image.floor_add_one_lt hu₀ hun, Image.floor_add_one_lt hv₀ hvn,
    fun focal => Image.interpolate_eq_cellMean focal hu₀ hun hv₀ hvn⟩

theorem le_sum_lookUps (hpadding : 1 ≤ s.pupil.padding)
    (hoversampling : 1 ≤ s.pupil.oversampling) {focal : Grid e.pupil.side e.pupil.side ℝ} {low : ℝ}
    (hlow : ∀ p q, low ≤ focal.get p q) (i j : Fin e.imageSide) :
    16 * low ≤
      ((e.lookUps i j).map fun place => Image.interpolate focal place.1 place.2).sum := by
  have hplaces : ∀ x ∈ (e.lookUps i j).map fun place => Image.interpolate focal place.1 place.2,
      low ≤ x := by
    intro x hx
    obtain ⟨place, hplace, rfl⟩ := List.mem_map.1 hx
    obtain ⟨hi, hj, hmean⟩ := exists_cell_of_mem_lookUps hbuild hpadding hoversampling hplace
    obtain ⟨⟨hu, -⟩, hv, -⟩ := mem_Ioo_of_mem_lookUps hbuild hpadding hoversampling hplace
    rw [hmean]
    exact Image.le_cellMean hlow (by linarith) (by linarith) hi hj
  have hsum := List.card_nsmul_le_sum _ low hplaces
  rw [List.length_map, length_lookUps, nsmul_eq_mul] at hsum
  exact_mod_cast hsum

/-- Every pixel of a long exposure through a pupil that is padded and sampled for the field reads
its focal grid at sixteen places, all more than a cell away from the edges. Each of them lies
between four nodes and takes their mean. So a pixel has no less flux than its places would have at
the darkest node: none of it is filled with zeros. -/
theorem lookUps_inside [RandomSource ℝ] (hpadding : 1 ≤ s.pupil.padding)
    (hoversampling : 1 ≤ s.pupil.oversampling) :
    (∀ i j : Fin e.imageSide, (e.lookUps i j).length = 16 ∧ ∀ place ∈ e.lookUps i j,
      (1 < place.1 ∧ place.1 < e.pupil.side - 1) ∧ (1 < place.2 ∧ place.2 < e.pupil.side - 1) ∧
      ∃ (hi : ⌊place.1⌋₊ + 1 < e.pupil.side) (hj : ⌊place.2⌋₊ + 1 < e.pupil.side),
        ∀ focal : Grid e.pupil.side e.pupil.side ℝ, Image.interpolate focal place.1 place.2 =
          Image.cellMean focal hi hj (place.1 - ⌊place.1⌋₊) (place.2 - ⌊place.2⌋₊)) ∧
    ∀ (cutoff : ℝ) (a : Atmosphere ℝ), e.instantiate? cutoff = some a →
      ∃ hside : 0 < e.imageSide, (∀ log, ((e.draw (m := Logged ℝ) cutoff).run log).1 =
        if e.Storable then .ok
          { width := e.imageSide
            height := e.imageSide
            scale := e.imageScale
            pixels := .ofFn fun i j => ((e.lookUps i j).map fun place =>
              Image.interpolate (e.focalImage a) place.1 place.2).sum * e.lookUpArea
            width_pos := hside
            height_pos := hside }
        else .error .crash) ∧
      ∀ low, (∀ p q, low ≤ (e.focalImage a).get p q) → ∀ i j : Fin e.imageSide,
        16 * low ≤ ((e.lookUps i j).map fun place =>
          Image.interpolate (e.focalImage a) place.1 place.2).sum := by
  constructor
  · intro i j
    refine ⟨e.length_lookUps i j, ?_⟩
    intro place hplace
    obtain ⟨hu, hv⟩ := mem_Ioo_of_mem_lookUps hbuild hpadding hoversampling hplace
    exact ⟨hu, hv, exists_cell_of_mem_lookUps hbuild hpadding hoversampling hplace⟩
  · intro cutoff a ha
    obtain ⟨hside, hresample⟩ := resample_eq_ok hbuild (e.focalImage a)
    refine ⟨hside, ?_, fun low hlow => le_sum_lookUps hbuild hpadding hoversampling hlow⟩
    intro log
    rw [fst_draw, image, ha]
    exact congrArg (fun drawn => if e.Storable then Failure.ofExcept drawn else .error .crash)
      hresample

end Built

/-- The sixteen places in the single pixel of the coarse exposure, on a focal grid of four by four
nodes. -/
theorem lookUps_inside_coarse :
    letI := countingSource
    ∃ (e : Exposure ℝ) (a : Atmosphere ℝ), ExposureSettings.coarse.build = .ok e ∧
      1 ≤ ExposureSettings.coarse.pupil.padding ∧
      1 ≤ ExposureSettings.coarse.pupil.oversampling ∧ e.instantiate? 0 = some a ∧
      (∀ i j : Fin e.imageSide, (e.lookUps i j).length = 16 ∧ ∀ place ∈ e.lookUps i j,
        (1 < place.1 ∧ place.1 < e.pupil.side - 1) ∧
          (1 < place.2 ∧ place.2 < e.pupil.side - 1)) ∧
      ∀ i j : Fin e.imageSide, 16 * 0 ≤ ((e.lookUps i j).map fun place =>
        Image.interpolate (e.focalImage a) place.1 place.2).sum := by
  let _ := countingSource
  obtain ⟨e, hbuild⟩ := ExposureSettings.build_coarse
  obtain ⟨-, -, hpupil, hatmosphere, -⟩ := ExposureSettings.build_eq_ok_iff.1 hbuild
  have : NeZero e.pupil.side := ⟨(e.pupil.side_pos (PupilSettings.samples_pos hpupil)).ne'⟩
  have hdrawable := ExposureSettings.drawable_coarse hatmosphere
  obtain ⟨a, ha⟩ := (Atmosphere.exists_screens_iff hatmosphere (0 / e.r0)).2 hdrawable
  obtain ⟨hplaces, hdraws⟩ := lookUps_inside hbuild le_rfl le_rfl
  obtain ⟨-, -, hlow⟩ := hdraws 0 a ha
  refine ⟨e, a, hbuild, le_rfl, le_rfl, ha, ?_, hlow 0 (e.focalImage_nonneg a)⟩
  intro i j
  obtain ⟨hlength, hinside⟩ := hplaces i j
  exact ⟨hlength, fun place hplace => ⟨(hinside place hplace).1, (hinside place hplace).2.1⟩⟩

end Exposure

end Seeing
