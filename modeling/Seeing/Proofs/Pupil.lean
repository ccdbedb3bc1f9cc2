import Seeing.Proofs.Checks
import Seeing.Proofs.Real
import Seeing.Pupil

/-!
# The samples of a pupil

The pupil keeps its annulus as a mask, and `Pupil.samples` lists the samples inside.
Row after row, the list holds the sample of every cell of the mask that is set, and
no other: `toList_samples`. There are as many as `Pupil.count` says, and a pupil that
has been built has some.

The samples are found by a visit of every cell, which marks a sample in the mask and
lists it, or does neither. After any number of visits the marks are those of the visited
cells in the annulus and the list holds their samples, so that in the end it is the list
of the mask: `samples_illumination`.
-/

namespace Seeing

namespace Pupil

section Samples

variable {α : Type} [Scalar α] (p : Pupil α)

theorem foldl_push_if {ι β : Type} (test : ι → Bool) (f : ι → β) (xs : List ι)
    (acc : Array β) :
    (xs.foldl (fun acc i => if test i then acc.push (f i) else acc) acc).toList =
      acc.toList ++ (xs.filter test).map f := by
  induction xs generalizing acc with
  | nil => simp
  | cons x xs ih =>
      rw [List.foldl_cons, ih]
      cases h : test x <;> simp [h]

/-- The samples are those of the cells inside, row after row. -/
theorem toList_samples :
    p.samples.toList = (List.finRange p.side).flatMap fun j =>
      ((List.finRange p.side).filter fun i => p.mask.get i j).map fun i => p.sample i j := by
  have hrows : ∀ (js : List (Fin p.side)) (acc : Array (PupilSample α)),
      (js.foldl (fun acc j => (List.finRange p.side).foldl (fun acc i =>
        if p.mask.get i j then acc.push (p.sample i j) else acc) acc) acc).toList =
      acc.toList ++ js.flatMap fun j =>
        ((List.finRange p.side).filter fun i => p.mask.get i j).map fun i =>
          p.sample i j := by
    intro js
    induction js with
    | nil => simp
    | cons j js ih =>
        intro acc
        rw [List.foldl_cons, ih, foldl_push_if, List.flatMap_cons, List.append_assoc]
  rw [samples]
  simp only [Nat.fold_eq_finRange_foldl]
  exact hrows (List.finRange p.side) #[]

theorem mem_samples {s : PupilSample α} :
    s ∈ p.samples ↔ ∃ i j, p.mask.get i j ∧ s = p.sample i j := by
  rw [← Array.mem_toList_iff, toList_samples]
  simp only [List.mem_flatMap, List.mem_map, List.mem_filter, List.mem_finRange]
  constructor
  · rintro ⟨j, -, i, ⟨-, hij⟩, rfl⟩
    exact ⟨i, j, hij, rfl⟩
  · rintro ⟨i, j, hij, rfl⟩
    exact ⟨j, trivial, i, ⟨trivial, hij⟩, rfl⟩

theorem size_samples : p.samples.size = p.count := by
  rw [count, ← Array.length_toList, ← Array.count_toList, toList_samples, Grid.toList_toArray,
    List.length_flatMap, List.count_flatMap]
  congr 1
  apply List.map_congr_left
  intro j _
  simp only [List.length_map, ← List.countP_eq_length_filter, List.count, List.countP_map,
    Function.comp_def, beq_true]

/-- A sum over the samples, cell by cell. -/
theorem sum_map_samples {M : Type} [AddCommMonoid M] (f : PupilSample α → M) :
    (p.samples.toList.map f).sum =
      ∑ j, ∑ i, if p.mask.get i j then f (p.sample i j) else 0 := by
  rw [toList_samples, List.map_flatMap, List.flatMap_def, List.sum_flatten, List.map_map,
    Fin.sum_univ_def]
  congr 1
  apply List.map_congr_left
  intro j _
  rw [Function.comp_apply, List.map_map, Fin.sum_univ_def]
  induction List.finRange p.side with
  | nil => rfl
  | cons i is ih => cases h : p.mask.get i j <;> simp [h, ih]

/-- The number of the samples, cell by cell. -/
theorem size_samples_eq_sum :
    p.samples.size = ∑ j, ∑ i, if p.mask.get i j then 1 else 0 := by
  rw [← p.sum_map_samples fun _ => 1, List.map_const', List.sum_replicate, smul_eq_mul, mul_one,
    Array.length_toList]

theorem side_pos (hsamples : 0 < p.samples.size) : 0 < p.side := by
  obtain ⟨i, -⟩ := (mem_samples p).1 (Array.getElem_mem hsamples)
  exact Fin.pos i

end Samples

end Pupil

namespace PupilSettings

variable {α : Type} [Scalar α]

section Visits

variable (s : PupilSettings α) {side : ℕ} (coordinates : Vector α side)

/-- The sample in a cell of the square, given by its column and its row. -/
def sampleIn (c : Fin side × Fin side) : PupilSample α :=
  ⟨c.2 * side + c.1, coordinates.get c.1, coordinates.get c.2⟩

/-- Whether the sample in a cell lies in the annulus. -/
def isInside (c : Fin side × Fin side) : Bool :=
  Pupil.annulus s.diameter s.obscuration (coordinates.get c.1) (coordinates.get c.2)

/-- What has been found after visits of the given cells, one after the other. -/
def visits (cells : List (Fin side × Fin side)) (l : Illumination α side) :
    Illumination α side :=
  cells.foldl (fun l c => s.visit coordinates c.1 c.2 l) l

theorem visit_eq (c : Fin side × Fin side) (l : Illumination α side) :
    s.visit coordinates c.1 c.2 l =
      if s.isInside coordinates c then l.add (sampleIn coordinates c) else l := rfl

/-- Visits list the samples of the cells in the annulus. -/
theorem toList_samples_visits (cells : List (Fin side × Fin side)) (l : Illumination α side) :
    (s.visits coordinates cells l).samples.toList =
      l.samples.toList ++
        (cells.filter (s.isInside coordinates)).map (sampleIn coordinates) := by
  induction cells generalizing l with
  | nil => simp [visits]
  | cons c cells ih =>
      rw [visits, List.foldl_cons, visit_eq]
      refine (ih _).trans ?_
      cases hc : s.isInside coordinates c <;> simp [hc, Illumination.add]

omit [Scalar α] in
/-- One more sample marks its own cell. -/
theorem get_mask_add (c : Fin side × Fin side) (x y : α) (l : Illumination α side)
    (i j : Fin side) :
    (l.add ⟨c.2 * side + c.1, x, y⟩).mask.get i j = true ↔
      l.mask.get i j = true ∨ (i, j) = c := by
  rw [Illumination.add, Grid.get_setAt]
  by_cases hplace : c.2.val * side + c.1.val = j.val * side + i.val
  · obtain ⟨hi, hj⟩ := Grid.index_inj (i := c.1) (j := c.2) hplace
    rw [if_pos hplace]
    exact iff_of_true rfl (.inr (by rw [← hi, ← hj]))
  · have hne : (i, j) ≠ c := by
      rintro rfl
      exact hplace rfl
    rw [if_neg hplace, or_iff_left hne]

/-- A visit marks the cell if it lies in the annulus. -/
theorem get_mask_visit (c : Fin side × Fin side) (l : Illumination α side) (i j : Fin side) :
    (s.visit coordinates c.1 c.2 l).mask.get i j = true ↔
      l.mask.get i j = true ∨ (i, j) = c ∧ s.isInside coordinates (i, j) = true := by
  have hcell : (i, j) = c ∧ s.isInside coordinates (i, j) = true ↔
      (i, j) = c ∧ s.isInside coordinates c = true := and_congr_right fun hc => by rw [hc]
  rw [visit_eq, hcell]
  by_cases hinside : s.isInside coordinates c = true
  · rw [if_pos hinside, sampleIn, get_mask_add, and_iff_left hinside]
  · rw [if_neg hinside, or_iff_left fun h => hinside h.2]

/-- Visits mark the cells in the annulus. -/
theorem get_mask_visits (cells : List (Fin side × Fin side)) (l : Illumination α side)
    (i j : Fin side) :
    (s.visits coordinates cells l).mask.get i j = true ↔
      l.mask.get i j = true ∨ (i, j) ∈ cells ∧ s.isInside coordinates (i, j) = true := by
  induction cells generalizing l with
  | nil => simp [visits]
  | cons c cells ih =>
      rw [visits, List.foldl_cons]
      refine (ih _).trans ?_
      rw [get_mask_visit, List.mem_cons, or_and_right, or_assoc]

end Visits

section Illumination

variable (s : PupilSettings α)

/-- The coordinates of the columns, and of the rows, of the square. -/
def coordinates : Vector α s.side := Vector.ofFn fun i => Pupil.coordinateOn s.side s.scale i

/-- The cells of a square, row after row. -/
def squareCells (n : ℕ) : List (Fin n × Fin n) :=
  (List.finRange n).flatMap fun j => (List.finRange n).map fun i => (i, j)

theorem mem_squareCells {n : ℕ} (c : Fin n × Fin n) : c ∈ squareCells n := by
  simp only [squareCells, List.mem_flatMap, List.mem_map, List.mem_finRange, true_and]
  exact ⟨c.2, c.1, rfl⟩

/-- The loop over the rows visits every cell. -/
theorem illumination_eq_visits :
    s.illumination = s.visits s.coordinates (squareCells s.side) (.dark α s.side) := by
  rw [visits, squareCells, List.foldl_flatMap]
  simp only [illumination, Nat.fold_eq_finRange_foldl, List.foldl_map, coordinates]

theorem isInside_coordinates (i j : Fin s.side) :
    s.isInside s.coordinates (i, j) = Pupil.annulus s.diameter s.obscuration
      (Pupil.coordinateOn s.side s.scale i) (Pupil.coordinateOn s.side s.scale j) := by
  simp only [isInside, coordinates, Vector.get_ofFn]

theorem get_mask_illumination (i j : Fin s.side) :
    s.illumination.mask.get i j = Pupil.annulus s.diameter s.obscuration
      (Pupil.coordinateOn s.side s.scale i) (Pupil.coordinateOn s.side s.scale j) := by
  rw [← isInside_coordinates, Bool.eq_iff_iff, illumination_eq_visits, get_mask_visits]
  simp [Illumination.dark, mem_squareCells]

theorem side_sampled : s.sampled.side = s.side := rfl

theorem get_mask_sampled (i j : Fin s.sampled.side) :
    s.sampled.mask.get i j = Pupil.annulus s.diameter s.obscuration
      (Pupil.coordinateOn s.side s.scale i) (Pupil.coordinateOn s.side s.scale j) :=
  s.get_mask_illumination i j

/-- The list that was made along with the mask holds the samples of the mask. -/
theorem samples_illumination : s.illumination.samples = s.sampled.samples := by
  apply Array.toList_inj.1
  have hrow : ∀ j : Fin s.side,
      (((List.finRange s.side).map fun i => (i, j)).filter (s.isInside s.coordinates)).map
          (sampleIn s.coordinates) =
        ((List.finRange s.side).filter fun i => s.illumination.mask.get i j).map
          fun i => s.sampled.sample i j := by
    intro j
    rw [List.filter_map, List.map_map]
    simp only [Function.comp_def, isInside_coordinates, get_mask_illumination]
    apply List.map_congr_left
    intro i _
    simp [sampleIn, coordinates, Pupil.sample, Pupil.coordinate, sampled, withMask]
  rw [illumination_eq_visits, toList_samples_visits, squareCells, List.filter_flatMap,
    List.map_flatMap, Pupil.toList_samples]
  simp only [hrow, Illumination.dark, List.nil_append]
  rfl

theorem isEmpty_samples_illumination :
    s.illumination.samples.isEmpty = true ↔ s.sampled.count = 0 := by
  rw [samples_illumination, Array.isEmpty_iff_size_eq_zero, Pupil.size_samples]

end Illumination

/-- The settings that give a pupil, and the pupil they give. -/
theorem build_eq_ok_iff {s : PupilSettings α} {p : Pupil α} :
    s.build = .ok p ↔
      (0 ≤ s.obscuration ∧ s.obscuration < 1) ∧ (∀ x ∈ s.positives, 0 < x.2) ∧
        s.sampled.count ≠ 0 ∧ p = s.sampled := by
  rw [← find?_not_positive_eq_none_iff, build]
  by_cases hobscuration : 0 ≤ s.obscuration ∧ s.obscuration < 1
  · rw [if_neg (by simpa using hobscuration)]
    obtain ⟨x, hfind⟩ | hfind := find?_not_positive_eq_some_or_none s.positives
    · rw [hfind]
      simp
    · rw [hfind]
      dsimp only
      by_cases hcount : s.sampled.count = 0
      · rw [if_pos (s.isEmpty_samples_illumination.2 hcount)]
        simp [hcount]
      · rw [if_neg (mt s.isEmpty_samples_illumination.1 hcount)]
        change Except.ok s.sampled = .ok p ↔ _
        simp [hcount, hobscuration, eq_comm]
  · rw [if_pos (by simpa [or_iff_not_imp_left] using hobscuration)]
    simp [hobscuration]

/-- A pupil that was built has a sample. -/
theorem samples_pos {s : PupilSettings α} {p : Pupil α} (hbuild : s.build = .ok p) :
    0 < p.samples.size := by
  obtain ⟨-, -, hcount, rfl⟩ := build_eq_ok_iff.1 hbuild
  rw [Pupil.size_samples]
  exact Nat.pos_of_ne_zero hcount

/-- The settings of a coarse pupil: four by four samples of half a metre. -/
noncomputable def coarse : PupilSettings ℝ where
  diameter := 1
  obscuration := 0
  wavelength := 10 ^ 9
  padding := 1
  oversampling := 1
  maxScale := 1 / 2
  field := 1

theorem scale_coarse : coarse.scale = 1 / 2 := by
  simp only [scale, Scalar.smaller_eq_min, coarse, Scalar.ofArcsec]
  apply min_eq_left
  have hpi := Real.pi_le_four
  have hpos := Real.pi_pos
  simp only [Scalar.real_div, Scalar.real_mul, Scalar.real_literal, Scalar.real_decimal,
    Scalar.real_pi]
  norm_num
  rw [le_div_iff₀ (by positivity)]
  linarith

theorem side_coarse : coarse.side = 4 := by
  rw [side, scale_coarse]
  simp [coarse, Pupil.evenSide, Scalar.isCountable, Scalar.toNat, Scalar.ceil]
  norm_num

theorem build_coarse : coarse.build = .ok coarse.sampled := by
  have hone : 1 < coarse.sampled.side := by
    rw [side_sampled, side_coarse]
    norm_num
  have hinside : coarse.sampled.mask.get ⟨1, hone⟩ ⟨1, hone⟩ := by
    have hcoordinate : Pupil.coordinateOn coarse.side coarse.scale 1 = -(1 / 4) := by
      rw [side_coarse, scale_coarse]
      simp [Pupil.coordinateOn]
      norm_num
    have hlength : √((-(1 / 4) : ℝ) ^ 2 + (-(1 / 4)) ^ 2) ≤ 1 / 2 := by
      rw [Real.sqrt_le_left (by norm_num)]
      norm_num
    rw [get_mask_sampled, hcoordinate, Pupil.annulus]
    simpa [coarse] using hlength
  have hcount : coarse.sampled.count ≠ 0 := by
    rw [← Pupil.size_samples]
    exact (Array.size_pos_of_mem
      (coarse.sampled.mem_samples.2 ⟨⟨1, hone⟩, ⟨1, hone⟩, hinside, rfl⟩)).ne'
  refine build_eq_ok_iff.2 ⟨?_, ?_, hcount, rfl⟩
  · simp [coarse]
  · simp [positives, coarse]

theorem side_of_build_coarse {p : Pupil ℝ} (hbuild : coarse.build = .ok p) : p.side = 4 := by
  obtain rfl := Except.ok.inj (build_coarse.symm.trans hbuild)
  rw [side_sampled, side_coarse]

end PupilSettings

end Seeing
