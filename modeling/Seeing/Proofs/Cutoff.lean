import Seeing.Cutoff
import Seeing.Proofs.Real

/-!
# Cutoffs in geometric progression

The cutoffs between two positive ends lie on the curve `geometric`, along which equal times
multiply by equal ratios. They are taken at the times `0`, `1/3`, `2/3` and `1`, so what the curve
keeps they keep: its ends, its ratios, its direction and the bounds between which it runs. Run
backwards it is the curve between the exchanged ends.
-/

namespace Seeing

/-- The place at the time `t` on the way from `first` to `last`, with equal ratios in equal
times. -/
noncomputable def geometric (first last t : ℝ) : ℝ := first ^ (1 - t) * last ^ t

section Curve

variable {first last : ℝ}

theorem geometric_zero (first last : ℝ) : geometric first last 0 = first := by
  simp [geometric]

theorem geometric_one (first last : ℝ) : geometric first last 1 = last := by
  simp [geometric]

theorem geometric_backwards (first last t : ℝ) :
    geometric last first (1 - t) = geometric first last t := by
  rw [geometric, geometric, sub_sub_cancel, mul_comm]

variable (hfirst : 0 < first) (hlast : 0 < last)

include hfirst hlast

theorem geometric_pos (t : ℝ) : 0 < geometric first last t :=
  mul_pos (Real.rpow_pos_of_pos hfirst _) (Real.rpow_pos_of_pos hlast _)

theorem geometric_add (t u : ℝ) :
    geometric first last (t + u) = geometric first last t * (last / first) ^ u := by
  rw [geometric, geometric, Real.div_rpow hlast.le hfirst.le, Real.rpow_add hlast,
    show 1 - (t + u) = 1 - t - u by ring, Real.rpow_sub hfirst]
  ring

theorem geometric_strictMono (hlt : first < last) : StrictMono (geometric first last) := by
  intro t u htu
  have hratio : 1 < (last / first) ^ (u - t) :=
    Real.one_lt_rpow ((one_lt_div hfirst).2 hlt) (sub_pos.2 htu)
  calc geometric first last t
      < geometric first last t * (last / first) ^ (u - t) :=
        lt_mul_of_one_lt_right (geometric_pos hfirst hlast t) hratio
    _ = geometric first last u := by
        rw [← geometric_add hfirst hlast, add_sub_cancel]

theorem geometric_strictAnti (hlt : last < first) : StrictAnti (geometric first last) := by
  intro t u htu
  rw [← geometric_backwards first, ← geometric_backwards first]
  exact geometric_strictMono hlast hfirst hlt (sub_lt_sub_left htu 1)

omit hlast in
theorem geometric_self (t : ℝ) : geometric first first t = first := by
  rw [geometric, ← Real.rpow_add hfirst, sub_add_cancel, Real.rpow_one]

theorem geometric_mem_Icc {t : ℝ} (ht : 0 ≤ t) (ht' : t ≤ 1) :
    geometric first last t ∈ Set.Icc (min first last) (max first last) := by
  have hzero := geometric_zero first last
  have hone := geometric_one first last
  rcases lt_trichotomy first last with hlt | rfl | hlt
  · have hmono := (geometric_strictMono hfirst hlast hlt).monotone
    rw [min_eq_left hlt.le, max_eq_right hlt.le]
    exact ⟨hzero.symm.trans_le (hmono ht), (hmono ht').trans_eq hone⟩
  · rw [geometric_self hfirst, min_self, max_self]
    exact Set.left_mem_Icc.2 le_rfl
  · have hanti := (geometric_strictAnti hfirst hlast hlt).antitone
    rw [min_eq_right hlt.le, max_eq_left hlt.le]
    exact ⟨hone.symm.trans_le (hanti ht'), (hanti ht).trans_eq hzero⟩

/-- Equal steps of the logarithm are equal steps along the curve. -/
theorem ten_rpow_eq_geometric (t : ℝ) :
    (10 : ℝ) ^ (Real.logb 10 first + t * (Real.logb 10 last - Real.logb 10 first)) =
      geometric first last t := by
  have hten : (0 : ℝ) < 10 := by norm_num
  have hfirst' : (10 : ℝ) ^ Real.logb 10 first = first :=
    Real.rpow_logb hten (by norm_num) hfirst
  have hlast' : (10 : ℝ) ^ Real.logb 10 last = last :=
    Real.rpow_logb hten (by norm_num) hlast
  calc (10 : ℝ) ^ (Real.logb 10 first + t * (Real.logb 10 last - Real.logb 10 first))
      = (10 : ℝ) ^ (Real.logb 10 first * (1 - t) + Real.logb 10 last * t) := by
        congr 1
        ring
    _ = geometric first last t := by
        rw [Real.rpow_add hten, Real.rpow_mul hten.le, Real.rpow_mul hten.le, hfirst', hlast',
          geometric]

end Curve

/-- The values are in geometric progression from `first` to `last`. -/
structure Progression (first last : ℝ) (grid : List ℝ) : Prop where
  length_eq : grid.length = cutoffCount
  getElem_eq : ∀ k (hk : k < grid.length),
    grid[k] = first ^ (1 - (k : ℝ) / 3) * last ^ ((k : ℝ) / 3)
  head_eq : grid.head? = some first
  getLast_eq : grid.getLast? = some last
  ratio : ∃ r, ∀ k (hk : k + 1 < grid.length), grid[k + 1] / grid[k] = r
  mem : ∀ x ∈ grid, 0 < x ∧ x ∈ Set.Icc (min first last) (max first last)
  ascends : first < last → grid.Pairwise (· < ·)
  constant : first = last → ∀ x ∈ grid, x = first
  descends : last < first → grid.Pairwise (· > ·)

section Cutoffs

/-- The values of the curve at the four times. -/
noncomputable def geometricValues (first last : ℝ) : List ℝ :=
  (List.range cutoffCount).map fun k : ℕ => geometric first last (k / 3)

theorem cutoffs_of_pos {first last : ℝ} (hfirst : 0 < first) (hlast : 0 < last) :
    cutoffs first last = .ok (geometricValues first last) := by
  have hstep (k : ℕ) : (10 : ℝ) ^ (Real.logb 10 first +
      k * ((Real.logb 10 last - Real.logb 10 first) / (3 : ℕ))) =
        geometric first last (k / 3) := by
    rw [← ten_rpow_eq_geometric hfirst hlast]
    congr 1
    push_cast
    ring
  have hvalues : cutoffs first last = .ok ((List.range cutoffCount).map fun k : ℕ =>
      (10 : ℝ) ^ (Real.logb 10 first +
        k * ((Real.logb 10 last - Real.logb 10 first) / (3 : ℕ)))) :=
    if_pos (by simp [hfirst, hlast])
  rw [hvalues, geometricValues]
  simp only [hstep]

theorem cutoffs_of_not_pos {first last : ℝ} (hrange : ¬(0 < first ∧ 0 < last)) :
    cutoffs first last = .error (.range first last) := by
  rw [cutoffs, if_neg (by simpa using hrange)]

theorem geometricValues_eq (first last : ℝ) : geometricValues first last =
    [first, geometric first last (1 / 3), geometric first last (2 / 3), last] := by
  rw [geometricValues, cutoffCount]
  simp [List.range_succ, geometric_zero, geometric_one]

theorem reverse_geometricValues (first last : ℝ) :
    (geometricValues first last).reverse = geometricValues last first := by
  rw [geometricValues_eq, geometricValues_eq, ← geometric_backwards first last (1 / 3),
    ← geometric_backwards first last (2 / 3)]
  norm_num

theorem progression_geometricValues {first last : ℝ} (hfirst : 0 < first) (hlast : 0 < last) :
    Progression first last (geometricValues first last) where
  length_eq := by rw [geometricValues, List.length_map, List.length_range]
  getElem_eq k hk := by
    simp only [geometricValues, List.getElem_map, List.getElem_range, geometric]
  head_eq := by rw [geometricValues_eq]; rfl
  getLast_eq := by rw [geometricValues_eq]; rfl
  ratio := by
    refine ⟨(last / first) ^ (1 / 3 : ℝ), ?_⟩
    intro k hk
    have hnext := geometric_add hfirst hlast (k / 3) (1 / 3)
    rw [← add_div] at hnext
    simp only [geometricValues, List.getElem_map, List.getElem_range, Nat.cast_add, Nat.cast_one]
    rw [hnext, mul_div_cancel_left₀ _ (geometric_pos hfirst hlast _).ne']
  mem := by
    intro x hx
    obtain ⟨k, hk, rfl⟩ := List.mem_map.1 hx
    have hk' : (k : ℝ) ≤ 3 := by
      exact_mod_cast Nat.le_of_lt_succ (List.mem_range.1 hk)
    exact ⟨geometric_pos hfirst hlast _,
      geometric_mem_Icc hfirst hlast (by positivity) ((div_le_one (by norm_num)).2 hk')⟩
  ascends hlt := by
    refine (List.pairwise_lt_range).map _ ?_
    intro k l hkl
    apply geometric_strictMono hfirst hlast hlt
    gcongr
  constant heq := by
    intro x hx
    obtain ⟨k, -, rfl⟩ := List.mem_map.1 hx
    rw [← heq, geometric_self hfirst]
  descends hlt := by
    refine (List.pairwise_lt_range).map _ ?_
    intro k l hkl
    apply geometric_strictAnti hfirst hlast hlt
    gcongr

/-- Between positive ends in either order the cutoffs are in geometric progression, and from the
last end to the first one they are the same, backwards. There are none for any other ends. -/
theorem cutoffs_progression (first last : ℝ) :
    (0 < first → 0 < last → ∃ grid, cutoffs first last = .ok grid ∧
        cutoffs last first = .ok grid.reverse ∧ Progression first last grid) ∧
      (¬(0 < first ∧ 0 < last) → cutoffs first last = .error (.range first last)) := by
  refine ⟨?_, cutoffs_of_not_pos⟩
  intro hfirst hlast
  refine ⟨geometricValues first last, cutoffs_of_pos hfirst hlast, ?_,
    progression_geometricValues hfirst hlast⟩
  rw [reverse_geometricValues]
  exact cutoffs_of_pos hlast hfirst

/-- From one to eight every cutoff is twice the one before. -/
theorem cutoffs_progression_doubling : (0 : ℝ) < 1 ∧ (0 : ℝ) < 8 ∧
    cutoffs (1 : ℝ) 8 = .ok [1, 2, 4, 8] ∧ cutoffs (8 : ℝ) 1 = .ok [8, 4, 2, 1] ∧
      ¬((0 : ℝ) < 0 ∧ (0 : ℝ) < 8) ∧ cutoffs (0 : ℝ) 8 = .error (.range 0 8) := by
  obtain ⟨grid, hgrid, hreverse, hprogression⟩ :=
    (cutoffs_progression 1 8).1 (by norm_num) (by norm_num)
  have hpower (k : ℕ) : (8 : ℝ) ^ ((k : ℝ) / 3) = 2 ^ k := by
    rw [show (8 : ℝ) = 2 ^ (3 : ℝ) by norm_num, ← Real.rpow_mul (by norm_num),
      mul_div_cancel₀ _ (by norm_num), Real.rpow_natCast]
  have hvalues : grid = [1, 2, 4, 8] := by
    apply List.ext_getElem hprogression.length_eq
    intro k hk hk'
    rw [hprogression.getElem_eq, Real.one_rpow, one_mul, hpower]
    have hk'' : k < 4 := hk'
    interval_cases k <;> norm_num
  rw [hvalues] at hgrid hreverse
  exact ⟨one_pos, by norm_num, hgrid, hreverse, by simp,
    (cutoffs_progression 0 8).2 (by simp)⟩

end Cutoffs

end Seeing
