import Seeing.Figure
import Seeing.Proofs.Grid
import Seeing.Proofs.Scalar.Whole

/-!
# The places of an image on the colour scale

The colour scale is stretched from the smallest value of an image to the largest one,
`exists_range`. The cells of an image are its pixels row after row, each with its place on the
scale, `toList_cells`.

If the difference between the largest and the smallest value is of finite size, the places are
`Spread` over the scale, from zero for the smallest value to one for the largest. But the difference
of two numbers of finite size may be infinite. Then the smaller values are all at zero, and the
largest one has no place: the places are `Lost`.
-/

open Float.Model

namespace Seeing

open Machine

section Extremes

variable {x y : Float} {a b : ℝ}

theorem Machine.Denotes.smaller (hx : Denotes x a) (hy : Denotes y b) :
    Denotes (Scalar.smaller x y) (min a b) := by
  rw [Scalar.smaller]
  by_cases hxy : x ≤ y
  · rw [if_pos hxy, min_eq_left ((hx.le_iff hy).1 hxy)]
    exact hx
  · have hba : b ≤ a := (not_le.1 fun hab => hxy ((hx.le_iff hy).2 hab)).le
    rw [if_neg hxy, if_pos ((hy.le_iff hx).2 hba), min_eq_right hba]
    exact hy

theorem Machine.Denotes.larger (hx : Denotes x a) (hy : Denotes y b) :
    Denotes (Scalar.larger x y) (max a b) := by
  rw [Scalar.larger]
  by_cases hxy : x ≤ y
  · rw [if_pos hxy, max_eq_right ((hx.le_iff hy).1 hxy)]
    exact hy
  · have hba : b ≤ a := (not_le.1 fun hab => hxy ((hx.le_iff hy).2 hab)).le
    rw [if_neg hxy, if_pos ((hy.le_iff hx).2 hba), max_eq_left hba]
    exact hx

/-- The real numbers that a list of machine numbers stands for. -/
def denoted (values : List Float) : Set ℝ := {a | ∃ x ∈ values, Denotes x a}

theorem denoted_snoc (values : List Float) (hx : Denotes x a) :
    denoted (values ++ [x]) = insert a (denoted values) := by
  ext c
  simp only [denoted, List.mem_append, List.mem_singleton, Set.mem_insert_iff, Set.mem_ofPred_eq]
  constructor
  · rintro ⟨y, hy | rfl, hc⟩
    · exact .inr ⟨y, hy, hc⟩
    · exact .inl (hc.unique hx)
  · rintro (rfl | ⟨y, hy, hc⟩)
    · exact ⟨x, .inr rfl, hx⟩
    · exact ⟨y, .inl hy, hc⟩

/-- The two machine numbers are the smallest and the largest of a list of finite ones. -/
structure Extremes (values : List Float) (low high : Float) (a b : ℝ) : Prop where
  low : Denotes low a
  high : Denotes high b
  least : IsLeast (denoted values) a
  greatest : IsGreatest (denoted values) b

theorem Extremes.singleton (hx : Denotes x a) : Extremes [x] x x a a := by
  have hvalues : denoted [x] = {a} := by
    have hsnoc := denoted_snoc [] hx
    rwa [List.nil_append, show denoted [] = ∅ by simp [denoted], insert_empty_eq] at hsnoc
  refine ⟨hx, hx, ?_, ?_⟩ <;> rw [hvalues]
  · exact isLeast_singleton
  · exact isGreatest_singleton

theorem Extremes.snoc {values : List Float} {low high : Float} {c : ℝ}
    (h : Extremes values low high a b) (hx : Denotes x c) :
    Extremes (values ++ [x]) (Scalar.smaller low x) (Scalar.larger high x) (min a c) (max b c) := by
  refine ⟨h.low.smaller hx, h.high.larger hx, ?_, ?_⟩ <;> rw [denoted_snoc values hx]
  · rw [min_comm]
    exact h.least.insert c
  · rw [max_comm]
    exact h.greatest.insert c

/-- A search through a list that starts with its first value and then keeps the smaller and the
larger ones finds the extremes. -/
theorem exists_extremes {next : Option (Float × Float) → Float → Option (Float × Float)}
    (hfirst : ∀ x, x ≤ x → next none x = some (x, x))
    (hnext : ∀ low high x,
      next (some (low, high)) x = some (Scalar.smaller low x, Scalar.larger high x))
    {values : List Float} (hne : values ≠ []) (hfinite : ∀ x ∈ values, x.isFinite = true) :
    ∃ low high a b, values.foldl next none = some (low, high) ∧ Extremes values low high a b := by
  -- the list grows at its end, as the search goes
  induction values using List.reverseRecOn with
  | nil => exact absurd rfl hne
  | append_singleton values x ih =>
      obtain ⟨c, hx⟩ := exists_denotes_iff.2 (hfinite x (by simp))
      rw [List.foldl_append, List.foldl_cons, List.foldl_nil]
      rcases values.eq_nil_or_concat with rfl | hconcat
      · exact ⟨x, x, c, c, hfirst x ((hx.le_iff hx).2 le_rfl), .singleton hx⟩
      · obtain ⟨low, high, a, b, hfold, hextremes⟩ :=
          ih (by rintro rfl; simp at hconcat) fun y hy => hfinite y (by simp [hy])
        rw [hfold, hnext]
        exact ⟨_, _, _, _, rfl, hextremes.snoc hx⟩

end Extremes

namespace Image

variable {image : Image Float} {i : Fin image.width} {j : Fin image.height}

/-- All values are numbers of finite size. -/
def IsFinite (image : Image Float) : Prop := ∀ i j, (image.pixels.get i j).isFinite = true

/-- No value is below another one. -/
def IsFlat (image : Image Float) : Prop :=
  ∀ i j i' j', ¬image.pixels.get i j < image.pixels.get i' j'

/-- No value is below that of the pixel. -/
def IsLowest (image : Image Float) (i : Fin image.width) (j : Fin image.height) : Prop :=
  ∀ i' j', image.pixels.get i j ≤ image.pixels.get i' j'

/-- No value is above that of the pixel. -/
def IsHighest (image : Image Float) (i : Fin image.width) (j : Fin image.height) : Prop :=
  ∀ i' j', image.pixels.get i' j' ≤ image.pixels.get i j

theorem mem_values {x : Float} : x ∈ image.values.toList ↔ ∃ i j, image.pixels.get i j = x := by
  rw [values, Grid.toList_toArray]
  simp only [List.mem_flatMap, List.mem_map, List.mem_finRange, true_and]
  exact exists_comm

theorem mem_denoted {c : ℝ} :
    c ∈ denoted image.values.toList ↔ ∃ i j, Denotes (image.pixels.get i j) c := by
  simp only [denoted, Set.mem_ofPred_eq, mem_values]
  constructor
  · rintro ⟨_, ⟨i, j, rfl⟩, hc⟩
    exact ⟨i, j, hc⟩
  · rintro ⟨i, j, hc⟩
    exact ⟨_, ⟨i, j, rfl⟩, hc⟩

theorem exists_range (hfinite : image.IsFinite) :
    ∃ low high a b, image.range? = some (low, high) ∧
      Extremes image.values.toList low high a b := by
  have hne : image.values.toList ≠ [] := by
    intro hnil
    have hmem := mem_values.2
      ⟨⟨0, image.width_pos⟩, ⟨0, image.height_pos⟩, rfl⟩
    rw [hnil] at hmem
    cases hmem
  rw [range?, ← Array.foldl_toList]
  refine exists_extremes (fun x hx => if_pos hx) (fun _ _ _ => rfl) hne fun x hx => ?_
  obtain ⟨i, j, rfl⟩ := mem_values.1 hx
  exact hfinite i j

section Extremes

variable {low high : Float} {a b c : ℝ} (h : Extremes image.values.toList low high a b)
  (hc : Denotes (image.pixels.get i j) c)

include h hc

theorem mem_Icc_of_extremes : a ≤ c ∧ c ≤ b :=
  ⟨h.least.2 (mem_denoted.2 ⟨i, j, hc⟩), h.greatest.2 (mem_denoted.2 ⟨i, j, hc⟩)⟩

theorem IsLowest.eq (hlowest : image.IsLowest i j) : c = a := by
  obtain ⟨i', j', ha⟩ := mem_denoted.1 h.least.1
  exact le_antisymm ((hc.le_iff ha).1 (hlowest i' j')) (mem_Icc_of_extremes h hc).1

theorem IsHighest.eq (hhighest : image.IsHighest i j) : c = b := by
  obtain ⟨i', j', hb⟩ := mem_denoted.1 h.greatest.1
  exact le_antisymm (mem_Icc_of_extremes h hc).2 ((hb.le_iff hc).1 (hhighest i' j'))

omit hc in
theorem lt_of_not_isFlat (hfinite : image.IsFinite) (hflat : ¬image.IsFlat) : a < b := by
  simp only [IsFlat, not_forall, not_not] at hflat
  obtain ⟨i, j, i', j', hlt⟩ := hflat
  obtain ⟨c, hc⟩ := exists_denotes_iff.2 (hfinite i j)
  obtain ⟨d, hd⟩ := exists_denotes_iff.2 (hfinite i' j')
  exact (mem_Icc_of_extremes h hc).1.trans_lt
    (((hc.lt_iff hd).1 hlt).trans_le (mem_Icc_of_extremes h hd).2)

end Extremes

end Image

namespace Figure

variable {image : Image Float} {i : Fin image.width} {j : Fin image.height}

/-- The place of a pixel of an image on the colour scale. -/
def parameter (image : Image Float) (i : Fin image.width) (j : Fin image.height) : Float :=
  (image.pixels.get i j - (stretch image).1) / (stretch image).2

theorem cells_eq_toArray (image : Image Float) :
    cells image = (Grid.ofFn fun i j => Cell.mk i j (parameter image i j)).toArray := by
  have hcells : cells image = image.values.zipIdx.map fun p =>
      ⟨p.2 % image.width, p.2 / image.width, (p.1 - (stretch image).1) / (stretch image).2⟩ := rfl
  rw [hcells]
  apply Array.ext
  · simp [Image.values]
  · intro k hk _
    have hsize : k < image.height * image.width := by simpa [Image.values] using hk
    simp [Grid.ofFn, Grid.toArray, parameter, Image.values, Grid.get_column_row _ hsize]

/-- The cells are the pixels row after row, each once. -/
theorem toList_cells (image : Image Float) :
    (cells image).toList = (List.finRange image.height).flatMap fun j =>
      (List.finRange image.width).map fun i => ⟨i, j, parameter image i j⟩ := by
  rw [cells_eq_toArray, Grid.toList_toArray]
  simp only [Grid.get_ofFn]

/-- The places of the values of an image are on the colour scale, the smallest one at its start and
the largest one at its end. All values of a flat image are at the start. -/
structure Spread (image : Image Float) : Prop where
  nonneg : ∀ i j, 0 ≤ parameter image i j
  le_one : ∀ i j, parameter image i j ≤ 1
  lowest : ∀ i j, image.IsLowest i j → (parameter image i j == 0) = true
  highest : ∀ i j, image.IsHighest i j → ¬image.IsFlat → parameter image i j = 1

/-- The values of an image are at the start of the colour scale or have no place, and the largest
one has none. -/
structure Lost (image : Image Float) : Prop where
  zero_or_isNaN : ∀ i j, (parameter image i j == 0) = true ∨ (parameter image i j).isNaN = true
  highest : ∀ i j, image.IsHighest i j → (parameter image i j).isNaN = true

section Scale

variable {low high : Float} {a b c : ℝ}

theorem stretch_of_range (hrange : image.range? = some (low, high)) :
    stretch image = (low, if low < high then high - low else 1) := by
  rw [stretch, hrange]
  rfl

theorem parameter_of_lt (hrange : image.range? = some (low, high)) (hlt : low < high)
    (i : Fin image.width) (j : Fin image.height) :
    parameter image i j = (image.pixels.get i j - low) / (high - low) := by
  rw [parameter, stretch_of_range hrange, if_pos hlt]

theorem denotes_sub_self {x y : Float} (hx : Denotes x a) (hy : Denotes y a) :
    Denotes (x - y) 0 := by
  have hround := rounds_sub hx hy
  rw [sub_self] at hround
  exact hround.denotes representable_zero

theorem denotes_zero_div {x y : Float} (hx : Denotes x 0) (hy : Denotes y b) (hb : b ≠ 0) :
    Denotes (x / y) 0 := by
  have hround := rounds_div hx hy hb
  rw [zero_div] at hround
  exact hround.denotes representable_zero

theorem beq_zero_of_denotes {x : Float} (hx : Denotes x 0) : (x == 0) = true :=
  (hx.beq_iff denotes_zero).2 rfl

section Distance

variable (h : Extremes image.values.toList low high a b) (hc : Denotes (image.pixels.get i j) c)

include h hc

/-- The distance of a value from the smallest one is not above that of the largest one. -/
theorem value_distance : (image.pixels.get i j - low).isNaN = false ∧
    0 ≤ value (image.pixels.get i j - low) ∧
      value (image.pixels.get i j - low) ≤ value (high - low) := by
  obtain ⟨hac, hcb⟩ := Image.mem_Icc_of_extremes h hc
  have hround := rounds_sub hc h.low
  exact ⟨hround.isNaN, hround.le 0 representable_zero (sub_nonneg.2 hac),
    value_sub_mono hc h.high h.low hcb⟩

theorem value_distance_of_isHighest (hhighest : image.IsHighest i j) :
    value (image.pixels.get i j - low) = value (high - low) := by
  obtain rfl := hhighest.eq h hc
  exact le_antisymm (value_sub_mono hc h.high h.low le_rfl) (value_sub_mono h.high hc h.low le_rfl)

end Distance

/-- All values of an image are equal. -/
theorem spread_of_not_lt (hfinite : image.IsFinite) (hrange : image.range? = some (low, high))
    (h : Extremes image.values.toList low high a b) (hlt : ¬low < high) : Spread image := by
  have hba : b ≤ a := not_lt.1 fun hab => hlt ((h.low.lt_iff h.high).2 hab)
  have hplace : ∀ i j, Denotes (parameter image i j) 0 := by
    intro i j
    obtain ⟨c, hc⟩ := exists_denotes_iff.2 (hfinite i j)
    obtain ⟨hac, hcb⟩ := Image.mem_Icc_of_extremes h hc
    obtain rfl : c = a := by linarith
    rw [parameter, stretch_of_range hrange, if_neg hlt]
    exact denotes_zero_div (denotes_sub_self hc h.low) denotes_one one_ne_zero
  refine ⟨fun i j => ?_, fun i j => ?_, fun i j _ => beq_zero_of_denotes (hplace i j), ?_⟩
  · exact (denotes_zero.le_iff (hplace i j)).2 le_rfl
  · exact ((hplace i j).le_iff denotes_one).2 zero_le_one
  · intro i j _ hflat
    exact absurd (Image.lt_of_not_isFlat h hfinite hflat) (not_lt.2 hba)

/-- Different values are at a positive distance also after it is rounded. -/
theorem exists_denotes_span (h : Extremes image.values.toList low high a b) (hlt : low < high)
    (hspan : (high - low).isFinite = true) : ∃ d, Denotes (high - low) d ∧ 0 < d := by
  obtain ⟨d, hd⟩ := exists_denotes_iff.2 hspan
  have hunit : Representable ((1 : ℕ) * 2 ^ (-1074 : ℤ)) :=
    representable_mul_zpow (by decide) (by decide) (by decide)
  rw [Nat.cast_one, one_mul] at hunit
  have hle := (rounds_sub h.high h.low).le _ hunit
    (h.low.representable.le_sub h.high.representable ((h.low.lt_iff h.high).1 hlt))
  rw [hd.value_eq, EReal.coe_le_coe_iff] at hle
  exact ⟨d, hd, (by positivity : (0 : ℝ) < 2 ^ (-1074 : ℤ)).trans_le hle⟩

theorem spread_of_isFinite (hfinite : image.IsFinite) (hrange : image.range? = some (low, high))
    (h : Extremes image.values.toList low high a b) (hlt : low < high)
    (hspan : (high - low).isFinite = true) : Spread image := by
  obtain ⟨d, hd, hpos⟩ := exists_denotes_span h hlt hspan
  have hplace : ∀ i j, ∃ t, Denotes (parameter image i j) t ∧ 0 ≤ t ∧ t ≤ 1 := by
    intro i j
    obtain ⟨c, hc⟩ := exists_denotes_iff.2 (hfinite i j)
    obtain ⟨hnan, hnonneg, hle⟩ := value_distance h hc
    -- the distance before rounding may be above `d`, as the span may have been rounded down
    rw [hd.value_eq] at hle
    obtain ⟨p, hp, hp₀, hpd⟩ := exists_denotes_of_le_value hnan hnonneg hle
    rw [parameter_of_lt hrange hlt]
    exact (rounds_div hp hd hpos.ne').exists_denotes representable_zero denotes_one.representable
      (div_nonneg hp₀ hpos.le) ((div_le_one hpos).2 hpd)
  refine ⟨fun i j => ?_, fun i j => ?_, fun i j hlowest => ?_, fun i j hhighest _ => ?_⟩
  · obtain ⟨t, ht, ht₀, -⟩ := hplace i j
    exact (denotes_zero.le_iff ht).2 ht₀
  · obtain ⟨t, ht, -, ht₁⟩ := hplace i j
    exact (ht.le_iff denotes_one).2 ht₁
  · obtain ⟨c, hc⟩ := exists_denotes_iff.2 (hfinite i j)
    obtain rfl := hlowest.eq h hc
    rw [parameter_of_lt hrange hlt]
    exact beq_zero_of_denotes (denotes_zero_div (denotes_sub_self hc h.low) hd hpos.ne')
  · obtain ⟨c, hc⟩ := exists_denotes_iff.2 (hfinite i j)
    have hdistance : Denotes (image.pixels.get i j - low) d := denotes_iff.2
      ⟨(value_distance h hc).1, (value_distance_of_isHighest h hc hhighest).trans hd.value_eq⟩
    have hround := rounds_div hdistance hd hpos.ne'
    rw [div_self hpos.ne', ← parameter_of_lt hrange hlt] at hround
    exact ((hround.denotes denotes_one.representable).eq_or_eq_zero denotes_one).resolve_right
      one_ne_zero

theorem lost_of_not_isFinite (hfinite : image.IsFinite)
    (hrange : image.range? = some (low, high)) (h : Extremes image.values.toList low high a b)
    (hlt : low < high) (hspan : (high - low).isFinite = false) : Lost image := by
  have hnumber := (rounds_sub h.high h.low).isNaN
  have hinfinite : (high - low).isInf = true := by
    by_contra hinf
    rw [isFinite_iff.2 ⟨hnumber, Bool.eq_false_iff.2 hinf⟩] at hspan
    cases hspan
  have hnone : ∀ i j, (image.pixels.get i j - low).isInf = true →
      (parameter image i j).isNaN = true := by
    intro i j hinf
    rw [parameter_of_lt hrange hlt, isNaN_div, hinf, hinfinite]
    simp
  have hdistance : ∀ i j, (image.pixels.get i j - low).isInf = true ∨
      ∃ p, Denotes (image.pixels.get i j - low) p := by
    intro i j
    obtain ⟨c, hc⟩ := exists_denotes_iff.2 (hfinite i j)
    exact (isNaN_or_isInf_or_denotes _).resolve_left (Bool.eq_false_iff.1 (value_distance h hc).1)
  refine ⟨fun i j => ?_, fun i j hhighest => hnone i j ((hdistance i j).resolve_right ?_)⟩
  · obtain ⟨s, hkind⟩ := isInf_iff.1 hinfinite
    refine (hdistance i j).symm.imp ?_ (hnone i j)
    rintro ⟨p, hp⟩
    rw [parameter_of_lt hrange hlt]
    exact beq_zero_of_denotes (denotes_div_of_infinity hp hkind)
  · rintro ⟨p, hp⟩
    obtain ⟨c, hc⟩ := exists_denotes_iff.2 (hfinite i j)
    have hd : Denotes (high - low) p := denotes_iff.2
      ⟨hnumber, (value_distance_of_isHighest h hc hhighest).symm.trans hp.value_eq⟩
    rw [exists_denotes_iff.1 ⟨p, hd⟩] at hspan
    cases hspan

/-- Where the places of an image are depends on the difference between the largest and the smallest
value only. -/
theorem spread_or_lost (hfinite : image.IsFinite) :
    (stretch image).2.isFinite = true ∧ Spread image ∨
      (stretch image).2.isFinite = false ∧ Lost image := by
  obtain ⟨low, high, a, b, hrange, h⟩ := Image.exists_range hfinite
  rw [stretch_of_range hrange]
  by_cases hlt : low < high
  · rw [if_pos hlt]
    cases hspan : (high - low).isFinite with
    | true => exact .inl ⟨rfl, spread_of_isFinite hfinite hrange h hlt hspan⟩
    | false => exact .inr ⟨rfl, lost_of_not_isFinite hfinite hrange h hlt hspan⟩
  · rw [if_neg hlt]
    exact .inl ⟨exists_denotes_iff.1 ⟨1, denotes_one⟩, spread_of_not_lt hfinite hrange h hlt⟩

end Scale

end Figure

end Seeing
