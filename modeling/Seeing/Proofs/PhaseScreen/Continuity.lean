import Seeing.Proofs.PhaseScreen.Flow

/-!
# The phase between the nodes of a screen

Linear interpolation stays between the values it starts from, `linearBetween_mem`, and changes no
faster than they do from one integer to the next: `abs_linearBetween_sub_le`. For the second, a
distance is cut at the integers, which the interpolation takes in steps.

The phase of a screen is such an interpolation along one axis of interpolations along the other, on
nodes none of which leaves the range of the data. So it has no jumps, neither between the cells nor
where the screen meets its repetition: `PhaseScreen.phase_interpolates`.
-/

namespace Seeing

section LinearBetween

variable {f g : ℤ → ℝ} {step : ℝ}

theorem linearBetween_intCast (f : ℤ → ℝ) (k : ℤ) : linearBetween f k = f k := by
  simp [linearBetween]

theorem linearBetween_mem {s : Set ℝ} (hs : Convex ℝ s) (hf : ∀ k, f k ∈ s) (u : ℝ) :
    linearBetween f u ∈ s :=
  hs (hf _) (hf _) (sub_nonneg.2 (Int.fract_lt_one u).le) (Int.fract_nonneg u)
    (sub_add_cancel 1 _)

/-- Interpolations of values that are close are as close. -/
theorem abs_linearBetween_sub_linearBetween_le (hfg : ∀ k, |f k - g k| ≤ step) (u : ℝ) :
    |linearBetween f u - linearBetween g u| ≤ step := by
  have hsub : linearBetween f u - linearBetween g u = linearBetween (fun k => f k - g k) u := by
    simp only [linearBetween]
    ring
  rw [hsub, abs_le]
  exact linearBetween_mem (convex_Icc (-step) step) (fun k => abs_le.1 (hfg k)) u

theorem abs_sub_le_mul_natCast (hf : ∀ k, |f (k + 1) - f k| ≤ step) (k : ℤ) (n : ℕ) :
    |f (k + n) - f k| ≤ step * n := by
  induction n with
  | zero => simp
  | succ n ih =>
      have hstep := hf (k + n)
      push_cast
      rw [← add_assoc]
      calc
        |f (k + n + 1) - f k| ≤ |f (k + n + 1) - f (k + n)| + |f (k + n) - f k| :=
          abs_sub_le _ _ _
        _ ≤ step * (n + 1) := by linarith

theorem linearBetween_sub_floor (f : ℤ → ℝ) (u : ℝ) :
    linearBetween f u - f ⌊u⌋ = (f (⌊u⌋ + 1) - f ⌊u⌋) * (u - ⌊u⌋) := by
  rw [linearBetween, Int.self_sub_floor]
  ring

/-- An interpolation changes by no more than a step for each unit of the distance. -/
theorem abs_linearBetween_sub_le (hf : ∀ k, |f (k + 1) - f k| ≤ step) (u v : ℝ) :
    |linearBetween f u - linearBetween f v| ≤ step * |u - v| := by
  wlog hvu : v ≤ u generalizing u v
  · rw [abs_sub_comm, abs_sub_comm u]
    exact this v u (not_le.1 hvu).le
  rw [abs_of_nonneg (sub_nonneg.2 hvu)]
  have hfloor := Int.floor_le u
  have hceil := (Int.lt_floor_add_one v).le
  have hu := linearBetween_sub_floor f u
  have hv := linearBetween_sub_floor f v
  rcases (Int.floor_mono hvu).eq_or_lt with hcell | hcell
  · -- both places lie in the same cell, where the interpolation is a line
    have hline : linearBetween f u - linearBetween f v =
        (f (⌊v⌋ + 1) - f ⌊v⌋) * (u - v) := by
      rw [← hcell] at hu
      linear_combination hu - hv
    rw [hline, abs_mul, abs_of_nonneg (sub_nonneg.2 hvu)]
    exact mul_le_mul_of_nonneg_right (hf _) (sub_nonneg.2 hvu)
  · -- from `v` up to the next integer, from there to the last one below `u`, and on to `u`
    obtain ⟨n, hn⟩ := Int.le.dest hcell
    have hn' : (⌊u⌋ : ℝ) = ⌊v⌋ + 1 + n := by
      rw [← hn]
      push_cast
      rfl
    have hlast : |linearBetween f u - f ⌊u⌋| ≤ step * (u - ⌊u⌋) := by
      rw [hu, abs_mul, abs_of_nonneg (sub_nonneg.2 hfloor)]
      exact mul_le_mul_of_nonneg_right (hf _) (sub_nonneg.2 hfloor)
    have hmiddle : |f ⌊u⌋ - f (⌊v⌋ + 1)| ≤ step * n := by
      rw [← hn]
      exact abs_sub_le_mul_natCast hf _ n
    have hfirst : |f (⌊v⌋ + 1) - linearBetween f v| ≤ step * (⌊v⌋ + 1 - v) := by
      have hrest : f (⌊v⌋ + 1) - linearBetween f v =
          (f (⌊v⌋ + 1) - f ⌊v⌋) * (⌊v⌋ + 1 - v) := by
        linear_combination -hv
      rw [hrest, abs_mul, abs_of_nonneg (sub_nonneg.2 hceil)]
      exact mul_le_mul_of_nonneg_right (hf _) (sub_nonneg.2 hceil)
    calc
      |linearBetween f u - linearBetween f v|
        ≤ |linearBetween f u - f ⌊u⌋| + |f ⌊u⌋ - linearBetween f v| := abs_sub_le _ _ _
      _ ≤ |linearBetween f u - f ⌊u⌋| +
            (|f ⌊u⌋ - f (⌊v⌋ + 1)| + |f (⌊v⌋ + 1) - linearBetween f v|) := by
          gcongr
          exact abs_sub_le _ _ _
      _ ≤ step * (u - ⌊u⌋) + (step * n + step * (⌊v⌋ + 1 - v)) := by
          gcongr
      _ = step * (u - v) := by
          rw [hn']
          ring

end LinearBetween

namespace PhaseScreen

variable (p : PhaseScreen ℝ)

/-- The phases at the pixels. -/
def values : Set ℝ := Set.range fun c : Fin p.side × Fin p.side => p.phases.get c.1 c.2

/-- The smallest phase at a pixel. -/
noncomputable def lowest : ℝ := sInf p.values

/-- The largest phase at a pixel. -/
noncomputable def highest : ℝ := sSup p.values

theorem node_mem_values (i j : ℤ) : p.node i j ∈ p.values := ⟨(_, _), rfl⟩

theorem isLeast_lowest : IsLeast p.values p.lowest :=
  ⟨Set.Nonempty.csInf_mem ⟨_, p.node_mem_values 0 0⟩ (Set.finite_range _),
    fun _ hz => csInf_le (Set.finite_range _).bddBelow hz⟩

theorem isGreatest_highest : IsGreatest p.values p.highest :=
  ⟨Set.Nonempty.csSup_mem ⟨_, p.node_mem_values 0 0⟩ (Set.finite_range _),
    fun _ hz => le_csSup (Set.finite_range _).bddAbove hz⟩

theorem node_mem_Icc (i j : ℤ) : p.node i j ∈ Set.Icc p.lowest p.highest :=
  ⟨p.isLeast_lowest.2 (p.node_mem_values i j), p.isGreatest_highest.2 (p.node_mem_values i j)⟩

theorem abs_node_sub_le (i j i' j' : ℤ) :
    |p.node i j - p.node i' j'| ≤ p.highest - p.lowest := by
  obtain ⟨hlow, hhigh⟩ := p.node_mem_Icc i j
  obtain ⟨hlow', hhigh'⟩ := p.node_mem_Icc i' j'
  rw [abs_le]
  constructor <;> linarith

theorem getElem?_toArray_node (i j : ℤ) :
    p.phases.toArray[(j % p.side).toNat * p.side + (i % p.side).toNat]? = some (p.node i j) := by
  have hside : (0 : ℤ) < p.side := Nat.cast_pos.2 p.side_pos
  have hmod : ∀ k : ℤ, (k % p.side).toNat % p.side = (k % p.side).toNat := by
    intro k
    have hlt := Int.emod_lt_of_pos k hside
    exact Nat.mod_eq_of_lt (by omega)
  have hread := p.getElem?_toArray_phases (i % p.side).toNat (j % p.side).toNat
  rwa [hmod, hmod] at hread

theorem phase_intCast (hscale : p.scale ≠ 0) (i j : ℤ) :
    p.phase (i * p.scale) (j * p.scale) 0 = p.node i j := by
  have hplace : ∀ (speed : ℝ) (k : ℤ), (k * p.scale - speed * 0) / p.scale = k := by
    intro speed k
    rw [mul_zero, sub_zero, mul_div_cancel_right₀ _ hscale]
  rw [phase_eq_linearBetween, hplace, hplace, linearBetween_intCast, onRow, linearBetween_intCast]

theorem phase_mem_Icc (x y t : ℝ) : p.phase x y t ∈ Set.Icc p.lowest p.highest := by
  rw [phase_eq_linearBetween]
  exact linearBetween_mem (convex_Icc _ _)
    (fun j => linearBetween_mem (convex_Icc _ _) (fun i => p.node_mem_Icc i j) _) _

theorem abs_onRow_sub_le (u u' : ℝ) (j : ℤ) :
    |p.onRow u j - p.onRow u' j| ≤ (p.highest - p.lowest) * |u - u'| := by
  apply abs_linearBetween_sub_le
  intro i
  exact p.abs_node_sub_le _ _ _ _

theorem abs_onRow_succ_sub_le (u : ℝ) (j : ℤ) :
    |p.onRow u (j + 1) - p.onRow u j| ≤ p.highest - p.lowest := by
  apply abs_linearBetween_sub_linearBetween_le
  intro i
  exact p.abs_node_sub_le _ _ _ _

/-- The way between two points is taken along one axis and then along the other. -/
theorem abs_phase_sub_le (hscale : 0 < p.scale) (x y x' y' t : ℝ) :
    |p.phase x y t - p.phase x' y' t| ≤
      (p.highest - p.lowest) * (|x - x'| + |y - y'|) / p.scale := by
  have hplace : ∀ z z' speed : ℝ,
      |(z - speed * t) / p.scale - (z' - speed * t) / p.scale| = |z - z'| / p.scale := by
    intro z z' speed
    rw [← sub_div, sub_sub_sub_cancel_right, abs_div, abs_of_pos hscale]
  rw [phase_eq_linearBetween, phase_eq_linearBetween, mul_div_assoc, add_div,
    ← hplace x x' p.velocity.1, ← hplace y y' p.velocity.2, mul_add]
  generalize (x - p.velocity.1 * t) / p.scale = u
  generalize (x' - p.velocity.1 * t) / p.scale = u'
  generalize (y - p.velocity.2 * t) / p.scale = v
  generalize (y' - p.velocity.2 * t) / p.scale = v'
  calc
    |linearBetween (p.onRow u) v - linearBetween (p.onRow u') v'|
      ≤ |linearBetween (p.onRow u) v - linearBetween (p.onRow u') v| +
          |linearBetween (p.onRow u') v - linearBetween (p.onRow u') v'| := abs_sub_le _ _ _
    _ ≤ (p.highest - p.lowest) * |u - u'| + (p.highest - p.lowest) * |v - v'| :=
        add_le_add (abs_linearBetween_sub_linearBetween_le (p.abs_onRow_sub_le u u') v)
          (abs_linearBetween_sub_le (p.abs_onRow_succ_sub_le u') v v')

/-- A screen takes the values of its data, counted around the edges, at the nodes, and everywhere it
stays between the smallest and the largest of them. It changes by at most their difference for every
pixel along either axis, without a jump between two cells or where the screen repeats. What is read
for a place is in the data, up to and including the end of the screen. -/
theorem phase_interpolates (hscale : 0 < p.scale) :
    (∀ i j : ℤ, p.phases.toArray[(j % p.side).toNat * p.side + (i % p.side).toNat]? =
      some (p.phase (i * p.scale) (j * p.scale) 0)) ∧
    (IsLeast p.values p.lowest ∧ IsGreatest p.values p.highest ∧
      ∀ x y t, p.lowest ≤ p.phase x y t ∧ p.phase x y t ≤ p.highest) ∧
    (∀ x y x' y' t, |p.phase x y t - p.phase x' y' t| ≤
      (p.highest - p.lowest) * (|x - x'| + |y - y'|) / p.scale) ∧
    (∀ x y t, p.phase x y t =
      p.valueAt (Scalar.wrap ((x - p.velocity.1 * t) / p.scale) p.side)
        (Scalar.wrap ((y - p.velocity.2 * t) / p.scale) p.side)) ∧
    ∀ u ∈ Set.Icc 0 (p.side : ℝ), ∀ v ∈ Set.Icc 0 (p.side : ℝ), ∀ r ∈ p.readings u v,
      r.1 < p.side * p.side := by
  refine ⟨?_, ⟨p.isLeast_lowest, p.isGreatest_highest, p.phase_mem_Icc⟩, p.abs_phase_sub_le hscale,
    p.phase_eq_valueAt, ?_⟩
  · intro i j
    rw [p.phase_intCast hscale.ne', p.getElem?_toArray_node]
  · intro u _ v _ r hr
    exact p.lt_of_mem_readings hr

/-- A screen of two by two pixels of half a metre, with phase at its first pixel only. -/
noncomputable def onePeak : PhaseScreen ℝ where
  side := 2
  scale := 1 / 2
  velocity := (1, -1)
  phases := .ofFn fun i j => if i.val = 0 ∧ j.val = 0 then 1 else 0
  side_pos := Nat.two_pos

/-- The peak is found again two repetitions to the left and three up, and at the end of the screen
as well as at its beginning. -/
theorem phase_interpolates_onePeak : 0 < onePeak.scale ∧
    onePeak.phase ((-4 : ℤ) * (1 / 2)) ((6 : ℤ) * (1 / 2)) 0 = 1 ∧
    (∀ x y, |onePeak.phase x y 3 - onePeak.phase 0 0 3| ≤
      (onePeak.highest - onePeak.lowest) * (|x - 0| + |y - 0|) / (1 / 2)) ∧
    ∀ r ∈ onePeak.readings 2 2, r.1 < 4 := by
  have hscale : 0 < onePeak.scale := by
    norm_num [onePeak]
  obtain ⟨hnodes, -, hslope, -, hreadings⟩ := phase_interpolates onePeak hscale
  have hpeak : onePeak.pixel 0 0 = 1 :=
    (Grid.get_ofFn _ _ _).trans (if_pos ⟨rfl, rfl⟩)
  have hread : onePeak.phases.toArray[0]? = some 1 :=
    hpeak ▸ onePeak.getElem?_toArray_phases 0 0
  have htwo : (2 : ℝ) ∈ Set.Icc 0 (onePeak.side : ℝ) := by
    norm_num [onePeak]
  refine ⟨hscale, ?_, fun x y => hslope x y 0 0 3, hreadings 2 htwo 2 htwo⟩
  have hnode := hnodes (-4) 6
  exact Option.some.inj (hnode.symm.trans hread)

end PhaseScreen

end Seeing
