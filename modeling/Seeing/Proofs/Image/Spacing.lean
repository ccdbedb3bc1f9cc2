import Seeing.Proofs.Image.Resample

/-!
# Hats on equally spaced points

Points with a distance of `step` cells from one to the next stand for `step` cells each. Counted by
them, a node comes out as `coverage step c`, if one of the points lies at a distance of `c` cells
from it: `hasSum_hat`. This is the sum of two ramps, one on either side of the node, and a ramp over
the natural numbers adds up to a parabola between any two integers, the `arch`: `hasSum_ramp`.

A node is counted `overcount step` times at most, `coverage_le_overcount`, and once if a whole
number of steps makes a cell, `coverage_of_whole`. Otherwise there are nodes that are counted more
than once although the points lie symmetrically about another node: `exists_one_lt_coverage`.
-/

namespace Seeing

namespace Image

/-- A parabola over every interval between two integers, zero at the integers. -/
noncomputable def arch (x : ℝ) : ℝ := Int.fract x * (1 - Int.fract x)

section Arch

theorem arch_nonneg (x : ℝ) : 0 ≤ arch x :=
  mul_nonneg (Int.fract_nonneg x) (sub_nonneg.2 (Int.fract_lt_one x).le)

theorem arch_eq (x : ℝ) : arch x = 1 / 4 - (Int.fract x - 1 / 2) ^ 2 := by
  rw [arch]
  ring

theorem arch_intCast (k : ℤ) : arch k = 0 := by
  simp [arch]

theorem arch_add_intCast (x : ℝ) (k : ℤ) : arch (x + k) = arch x := by
  rw [arch, Int.fract_add_intCast, arch]

theorem arch_fract (x : ℝ) : arch (Int.fract x) = arch x := by
  rw [arch, Int.fract_fract, arch]

theorem arch_neg (x : ℝ) : arch (-x) = arch x := by
  by_cases hx : Int.fract x = 0
  · rw [arch, arch, Int.fract_neg_eq_zero.2 hx, hx]
  · rw [arch, arch, Int.fract_neg hx]
    ring

theorem arch_eq_of_sub_eq {x y : ℝ} (k : ℤ) (h : x - y = k) : arch x = arch y := by
  rw [← sub_add_cancel x y, h, add_comm, arch_add_intCast]

theorem arch_eq_of_add_eq {x y : ℝ} (k : ℤ) (h : x + y = k) : arch x = arch y := by
  rw [← arch_neg y]
  exact arch_eq_of_sub_eq k (by rw [sub_neg_eq_add, h])

theorem arch_of_mem_unit {x : ℝ} (hx : 0 ≤ x) (hx' : x < 1) : arch x = x * (1 - x) := by
  rw [arch, Int.fract_eq_self.2 ⟨hx, hx'⟩]

theorem arch_half : arch (1 / 2) = 1 / 4 := by
  rw [arch_of_mem_unit one_half_pos.le one_half_lt_one]
  norm_num

/-- Between two integers an arch is a parabola, where they meet it bends upwards. -/
theorem arch_add_add_arch_sub_le (x y : ℝ) :
    arch (x + y) + arch (x - y) ≤ 2 * (arch x + arch y) := by
  have hadd : arch (x + y) = arch (Int.fract x + Int.fract y) := by
    apply arch_eq_of_sub_eq (⌊x⌋ + ⌊y⌋)
    push_cast
    linarith [Int.fract_add_floor x, Int.fract_add_floor y]
  have hsub : arch (x - y) = arch (Int.fract x - Int.fract y) := by
    apply arch_eq_of_sub_eq (⌊x⌋ - ⌊y⌋)
    push_cast
    linarith [Int.fract_add_floor x, Int.fract_add_floor y]
  rw [hadd, hsub, arch_eq x, arch_eq y]
  have hx := Int.fract_nonneg x
  have hx' := Int.fract_lt_one x
  have hy := Int.fract_nonneg y
  have hy' := Int.fract_lt_one y
  generalize Int.fract x = f at *
  generalize Int.fract y = g at *
  have hupper : arch (f + g) = (f + g) * (1 - (f + g)) ∧ f + g < 1 ∨
      arch (f + g) = (f + g - 1) * (1 - (f + g - 1)) ∧ 1 ≤ f + g := by
    rcases lt_or_ge (f + g) 1 with h | h
    · exact .inl ⟨arch_of_mem_unit (add_nonneg hx hy) h, h⟩
    · refine .inr ⟨?_, h⟩
      rw [arch_eq_of_sub_eq 1 (by simp : f + g - (f + g - 1) = (1 : ℤ))]
      exact arch_of_mem_unit (by linarith) (by linarith)
  have hlower : arch (f - g) = (f - g) * (1 - (f - g)) ∧ g ≤ f ∨
      arch (f - g) = (f - g + 1) * (1 - (f - g + 1)) ∧ f < g := by
    rcases lt_or_ge f g with h | h
    · refine .inr ⟨?_, h⟩
      rw [arch_eq_of_sub_eq (-1) (by simp : f - g - (f - g + 1) = (-1 : ℤ))]
      exact arch_of_mem_unit (by linarith) (by linarith)
    · exact .inl ⟨arch_of_mem_unit (sub_nonneg.2 h) (by linarith), h⟩
  rcases hupper with ⟨hsum, _⟩ | ⟨hsum, _⟩ <;> rcases hlower with ⟨hdiff, _⟩ | ⟨hdiff, _⟩ <;>
    rw [hsum, hdiff] <;> linarith

end Arch

theorem sum_range_sub_natCast (z : ℝ) (k : ℕ) :
    ∑ s ∈ Finset.range k, (z - s) = k * z - k * (k - 1) / 2 := by
  induction k with
  | zero => simp
  | succ k ih =>
      rw [Finset.sum_range_succ, ih]
      push_cast
      ring

/-- A ramp that starts at `z` and falls by one from each natural number to the next. -/
theorem hasSum_ramp {z : ℝ} (hz : -1 ≤ z) :
    HasSum (fun s : ℕ => max 0 (z - s)) ((z * (z + 1) + arch z) / 2) := by
  have hpos : -1 ≤ ⌊z⌋ := Int.le_floor.2 (by simpa using hz)
  obtain ⟨n, hn⟩ := Int.eq_ofNat_of_zero_le (neg_le_iff_add_nonneg.1 hpos)
  have hfloor : (⌊z⌋ : ℝ) = n - 1 := by
    rw [eq_sub_iff_add_eq]
    exact_mod_cast hn
  have hle := Int.floor_le z
  have hlt := Int.lt_floor_add_one z
  have htotal : (z * (z + 1) + arch z) / 2 = ∑ s ∈ Finset.range n, max 0 (z - s) := by
    have hramp : ∀ s ∈ Finset.range n, max 0 (z - s) = z - s := by
      intro s hs
      have : (s : ℝ) + 1 ≤ n := by exact_mod_cast Finset.mem_range.1 hs
      exact max_eq_right (by linarith)
    rw [Finset.sum_congr rfl hramp, sum_range_sub_natCast, arch, ← Int.self_sub_floor, hfloor]
    ring
  rw [htotal]
  apply hasSum_sum_of_ne_finset_zero
  intro s hs
  have : (n : ℝ) ≤ s := by exact_mod_cast not_lt.1 (mt Finset.mem_range.2 hs)
  exact max_eq_left (by linarith)

section Hats

variable {step : ℝ} (hstep : 0 < step)

include hstep

theorem hat_eq_mul_max (x : ℝ) : hat (step * x) = step * max 0 (1 / step - |x|) := by
  rw [mul_max_of_nonneg _ _ hstep.le, mul_zero, mul_sub, mul_one_div_cancel hstep.ne', hat, abs_mul,
    abs_of_pos hstep]

theorem hasSum_hat_of_mem_unit {w : ℝ} (hw : 0 ≤ w) (hw' : w < 1) :
    HasSum (fun s : ℤ => hat (step * (s + w)))
      (1 / step + step / 2 * (arch (1 / step + w) + arch (1 / step - w) - 2 * arch w)) := by
  have hcell : 0 < 1 / step := one_div_pos.2 hstep
  have hright : HasSum (fun s : ℕ => hat (step * (((s : ℤ) : ℝ) + w)))
      (step * (((1 / step - w) * (1 / step - w + 1) + arch (1 / step - w)) / 2)) := by
    refine ((hasSum_ramp (by linarith)).mul_left step).congr_fun fun s => ?_
    rw [hat_eq_mul_max hstep, Int.cast_natCast, abs_of_nonneg (by positivity), sub_sub,
      add_comm w]
  have hleft : HasSum (fun s : ℕ => hat (step * (((-(s + 1) : ℤ) : ℝ) + w)))
      (step * (((1 / step + w - 1) * (1 / step + w - 1 + 1) + arch (1 / step + w - 1)) / 2)) := by
    refine ((hasSum_ramp (by linarith)).mul_left step).congr_fun fun s => ?_
    have hs : (0 : ℝ) ≤ s := Nat.cast_nonneg s
    push_cast
    rw [hat_eq_mul_max hstep, abs_of_nonpos (by linarith)]
    congr 2
    ring
  have hperiod : arch (1 / step + w - 1) = arch (1 / step + w) :=
    arch_eq_of_sub_eq (-1) (by push_cast; ring)
  have htotal : 1 / step + step / 2 * (arch (1 / step + w) + arch (1 / step - w) - 2 * arch w) =
      step * (((1 / step - w) * (1 / step - w + 1) + arch (1 / step - w)) / 2) +
        step * (((1 / step + w - 1) * (1 / step + w - 1 + 1) + arch (1 / step + w - 1)) / 2) := by
    rw [hperiod, arch_of_mem_unit hw hw']
    field_simp
    ring
  rw [htotal]
  exact HasSum.of_nat_of_neg_add_one hright hleft

/-- How often points with a distance of `step` cells count a node, when one of them lies at a
distance of `c` cells from it. -/
noncomputable def coverage (step c : ℝ) : ℝ :=
  1 + step ^ 2 / 2 * (arch ((1 + c) / step) + arch ((1 - c) / step) - 2 * arch (c / step))

theorem hasSum_hat (c : ℝ) :
    HasSum (fun s : ℤ => step * hat (step * s + c)) (coverage step c) := by
  have hadd : arch ((1 + c) / step) = arch (1 / step + Int.fract (c / step)) := by
    rw [add_div]
    exact arch_eq_of_sub_eq ⌊c / step⌋ (by linarith [Int.fract_add_floor (c / step)])
  have hsub : arch ((1 - c) / step) = arch (1 / step - Int.fract (c / step)) := by
    rw [sub_div]
    apply arch_eq_of_sub_eq (-⌊c / step⌋)
    push_cast
    linarith [Int.fract_add_floor (c / step)]
  have htotal : coverage step c = step * (1 / step + step / 2 *
      (arch (1 / step + Int.fract (c / step)) + arch (1 / step - Int.fract (c / step)) -
        2 * arch (Int.fract (c / step)))) := by
    rw [coverage, hadd, hsub, arch_fract]
    field_simp
  rw [htotal]
  -- the points are counted from the one before the node
  refine (((Equiv.addRight ⌊c / step⌋).hasSum_iff.2 (hasSum_hat_of_mem_unit hstep
    (Int.fract_nonneg (c / step)) (Int.fract_lt_one _))).mul_left step).congr_fun fun s => ?_
  rw [Function.comp_apply, Equiv.coe_addRight, Int.cast_add, add_assoc, Int.floor_add_fract,
    mul_add, mul_div_cancel₀ c hstep.ne']

theorem sum_hat_le_coverage (points : Finset ℤ) (c : ℝ) :
    ∑ s ∈ points, step * hat (step * s + c) ≤ coverage step c :=
  sum_le_hasSum points (fun _ _ => mul_nonneg hstep.le (hat_nonneg _)) (hasSum_hat hstep c)

/-- The points that come close to a node are all that it takes. -/
theorem sum_hat_eq_coverage {points : Finset ℤ} {c : ℝ}
    (hpoints : ∀ s : ℤ, |step * s + c| < 1 → s ∈ points) :
    ∑ s ∈ points, step * hat (step * s + c) = coverage step c := by
  refine (hasSum_sum_of_ne_finset_zero fun s hs => ?_).unique (hasSum_hat hstep c)
  rw [hat_of_one_le (not_lt.1 (mt (hpoints s) hs)), mul_zero]

end Hats

section Coverage

variable {step : ℝ}

theorem coverage_add_mul (hstep : 0 < step) (c : ℝ) (k : ℤ) :
    coverage step (step * k + c) = coverage step c := by
  have hadd : arch ((1 + (step * k + c)) / step) = arch ((1 + c) / step) :=
    arch_eq_of_sub_eq k (by field_simp; ring)
  have hsub : arch ((1 - (step * k + c)) / step) = arch ((1 - c) / step) :=
    arch_eq_of_sub_eq (-k) (by push_cast; field_simp; ring)
  have hcentre : arch ((step * k + c) / step) = arch (c / step) :=
    arch_eq_of_sub_eq k (by field_simp; ring)
  rw [coverage, hadd, hsub, hcentre, coverage]

/-- The most that points with a distance of `step` cells count a node. -/
noncomputable def overcount (step : ℝ) : ℝ := 1 + step ^ 2 * arch (1 / step)

theorem overcount_two : overcount 2 = 2 := by
  rw [overcount, arch_half]
  norm_num

/-- The most is counted if one of the points lies on the node. -/
theorem coverage_zero (step : ℝ) : coverage step 0 = overcount step := by
  have hcentre : arch (0 / step) = 0 := by
    rw [zero_div]
    exact_mod_cast arch_intCast 0
  rw [coverage, overcount, hcentre, add_zero, sub_zero]
  ring

theorem coverage_le_overcount (step c : ℝ) : coverage step c ≤ overcount step := by
  have hbend := arch_add_add_arch_sub_le (1 / step) (c / step)
  rw [← add_div, ← sub_div] at hbend
  rw [coverage, overcount]
  linarith [mul_le_mul_of_nonneg_left hbend (sq_nonneg step)]

/-- With a whole number of steps to a cell, every node counts once. -/
theorem coverage_of_whole {m : ℕ} (hm : step * m = 1) (c : ℝ) : coverage step c = 1 := by
  have hcell : 1 / step = m := by
    rw [one_div, eq_inv_of_mul_eq_one_right hm]
  have hadd : arch ((1 + c) / step) = arch (c / step) :=
    arch_eq_of_sub_eq m (by rw [add_div, hcell]; push_cast; ring)
  have hsub : arch ((1 - c) / step) = arch (c / step) :=
    arch_eq_of_add_eq m (by rw [sub_div, hcell]; push_cast; ring)
  rw [coverage, hadd, hsub]
  ring

theorem overcount_of_whole {m : ℕ} (hm : step * m = 1) : overcount step = 1 := by
  rw [← coverage_zero, coverage_of_whole hm]

/-- What starts downwards and stays above zero bends upwards somewhere. -/
theorem exists_two_mul_lt_add {b : ℕ → ℝ} (hb : ∀ j, 0 ≤ b j) (hstart : b 1 < b 0) :
    ∃ j, 2 * b (j + 1) < b (j + 2) + b j := by
  by_contra! hbend
  have hfall : ∀ j, b (j + 1) - b j ≤ b 1 - b 0 := by
    intro j
    induction j with
    | zero => rfl
    | succ j ih => linarith [hbend j]
  have hline : ∀ j : ℕ, b j ≤ b 0 - j * (b 0 - b 1) := by
    intro j
    induction j with
    | zero => simp
    | succ j ih =>
        push_cast
        linarith [hfall j]
  obtain ⟨j, hj⟩ := exists_nat_gt (b 0 / (b 0 - b 1))
  rw [div_lt_iff₀ (sub_pos.2 hstart)] at hj
  linarith [hb j, hline j]

/-- Without a whole number of steps to a cell, a node that lies midway between two points counts
less than once, and so some of the nodes to its right count more. -/
theorem exists_one_lt_coverage (hstep : 0 < step) (hcell : Int.fract (1 / step) ≠ 0) :
    ∃ j : ℕ, 0 < j ∧ 1 < coverage step (step / 2 - j) := by
  have hmiddle : arch (1 / 2 + (0 : ℕ) / step) = 1 / 4 := by
    rw [Nat.cast_zero, zero_div, add_zero, arch_half]
  have hnext : arch (1 / 2 + (1 : ℕ) / step) < 1 / 4 := by
    rw [arch_eq, Nat.cast_one, sub_lt_self_iff, sq_pos_iff, sub_ne_zero]
    intro hhalf
    apply hcell
    rw [Int.fract_eq_iff]
    refine ⟨le_rfl, zero_lt_one, ⌊1 / 2 + 1 / step⌋, ?_⟩
    linarith [Int.fract_add_floor (1 / 2 + 1 / step)]
  obtain ⟨j, hj⟩ := exists_two_mul_lt_add (b := fun j : ℕ => arch (1 / 2 + j / step))
    (fun _ => arch_nonneg _) (hnext.trans_eq hmiddle.symm)
  refine ⟨j + 1, Nat.succ_pos j, ?_⟩
  have hadd : arch ((1 + (step / 2 - (j + 1 : ℕ))) / step) = arch (1 / 2 + j / step) :=
    arch_eq_of_add_eq 1 (by push_cast; field_simp; ring)
  have hsub : arch ((1 - (step / 2 - (j + 1 : ℕ))) / step) = arch (1 / 2 + (j + 2 : ℕ) / step) :=
    arch_eq_of_sub_eq (-1) (by push_cast; field_simp; ring)
  have hcentre : arch ((step / 2 - (j + 1 : ℕ)) / step) = arch (1 / 2 + (j + 1 : ℕ) / step) :=
    arch_eq_of_add_eq 1 (by push_cast; field_simp; ring)
  rw [coverage, hadd, hsub, hcentre]
  have : 0 < step ^ 2 / 2 * (arch (1 / 2 + j / step) + arch (1 / 2 + (j + 2 : ℕ) / step) -
      2 * arch (1 / 2 + (j + 1 : ℕ) / step)) := mul_pos (by positivity) (by linarith)
  linarith

end Coverage

end Image

end Seeing
