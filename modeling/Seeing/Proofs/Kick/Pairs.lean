import Seeing.Proofs.Kick.Peak
import Seeing.Proofs.Pupil.Separation

/-!
# The pairs of samples that a transfer function counts

The transfer function of a pupil is a correlation around the edges of its square: a value counts the
pairs of samples that differ by so many cells modulo the side. Samples of a pupil differ by less
than half a side, and a lag is the one representative of its remainder in that range, so that the
pairs are those whose difference is the lag, `overlap_eq_pairsApart`. No pair is counted around the
edges.
-/

namespace Seeing

theorem Amplitude.toComplex_eq_ofReal_iff {a : Amplitude ℝ} {x : ℝ} :
    a.toComplex = x ↔ a = .ofReal x := by
  cases a
  simp [Complex.ext_iff, ofReal]

namespace Kick

theorem lag_eq (n i : ℕ) :
    (lag n i : ℝ) = ((if i < n / 2 then (i : ℤ) else i - n : ℤ) : ℝ) := by
  rw [lag]
  split_ifs <;> simp

/-- Of two cells less than half a side apart, the difference is a lag when it is one modulo the
side. -/
theorem sub_eq_lag_iff {n : ℕ} [NeZero n] (hn : Even n) {k l : Fin n} (hkl : k.val < l.val + n / 2)
    (hlk : l.val < k.val + n / 2) (a : Fin n) : (k : ℝ) - l = lag n a ↔ k = l + a := by
  have hcast : (k : ℝ) - l = lag n a ↔ (k : ℤ) - l = if a < n / 2 then (a : ℤ) else a - n := by
    rw [lag_eq]
    exact_mod_cast Iff.rfl
  obtain ⟨m, rfl⟩ := hn
  have ha := a.isLt
  rw [hcast, Fin.ext_iff, Fin.val_add]
  rcases Nat.lt_or_ge (l.val + a.val) (m + m) with hinside | hbeyond
  · rw [Nat.mod_eq_of_lt hinside]
    split_ifs <;> omega
  · rw [Nat.mod_eq_sub_mod hbeyond, Nat.mod_eq_of_lt (by omega)]
    split_ifs <;> omega

variable (k : Kick ℝ)

theorem overlap_eq_card (a b : Fin k.pupil.side) :
    k.overlap a b = (Finset.univ.filter fun v : Fin k.pupil.side × Fin k.pupil.side =>
      k.pupil.mask.get (v.1 + a) (v.2 + b) ∧ k.pupil.mask.get v.1 v.2).card := by
  rw [overlap, Finset.card_filter, Finset.sum_comm, Fintype.sum_prod_type]
  push_cast
  apply Finset.sum_congr rfl
  intro p _
  apply Finset.sum_congr rfl
  intro q _
  rw [aperture, aperture, ite_and]
  split_ifs <;> norm_num

/-- The first of two samples is fixed by the second and the lag. -/
theorem overlap_eq_pairsApart [NeZero k.pupil.side] (heven : Even k.pupil.side)
    (hclose : ∀ i j i' j', k.pupil.mask.get i j → k.pupil.mask.get i' j' →
      i.val < i'.val + k.pupil.side / 2 ∧ j.val < j'.val + k.pupil.side / 2)
    (a b : Fin k.pupil.side) :
    k.overlap a b = k.pupil.pairsApart (lag k.pupil.side a) (lag k.pupil.side b) := by
  rw [overlap_eq_card, Pupil.pairsApart, Nat.cast_inj]
  have hlag : ∀ u v : Fin k.pupil.side × Fin k.pupil.side, k.pupil.mask.get u.1 u.2 →
      k.pupil.mask.get v.1 v.2 →
      (((u.1 : ℝ) - v.1 = lag k.pupil.side a ↔ u.1 = v.1 + a) ∧
        ((u.2 : ℝ) - v.2 = lag k.pupil.side b ↔ u.2 = v.2 + b)) := by
    intro u v hu hv
    have huv := hclose _ _ _ _ hu hv
    have hvu := hclose _ _ _ _ hv hu
    exact ⟨sub_eq_lag_iff heven huv.1 hvu.1 a, sub_eq_lag_iff heven huv.2 hvu.2 b⟩
  apply Finset.card_nbij' (fun v => ((v.1 + a, v.2 + b), v)) (fun w => w.2)
  · intro v hv
    simp only [Finset.coe_filter, Set.mem_ofPred_eq, Finset.mem_univ, true_and] at hv ⊢
    have hcells := hlag (v.1 + a, v.2 + b) v hv.1 hv.2
    exact ⟨hv.1, hv.2, hcells.1.2 rfl, hcells.2.2 rfl⟩
  · intro w hw
    simp only [Finset.coe_filter, Set.mem_ofPred_eq, Finset.mem_univ, true_and] at hw ⊢
    have hcells := hlag w.1 w.2 hw.fst_inside hw.snd_inside
    rw [← hcells.1.1 hw.columns, ← hcells.2.1 hw.rows]
    exact ⟨hw.fst_inside, hw.snd_inside⟩
  · intro v _
    rfl
  · intro w hw
    simp only [Finset.coe_filter, Set.mem_ofPred_eq, Finset.mem_univ, true_and] at hw
    have hcells := hlag w.1 w.2 hw.fst_inside hw.snd_inside
    exact Prod.ext (Prod.ext (hcells.1.1 hw.columns).symm (hcells.2.1 hw.rows).symm) rfl

/-- With at least the resolution of the telescope, the transfer function of a pupil counts the pairs
of samples whose difference is the lag, times the number of cells. It is real and not negative, it
counts every sample once at no lag, and it is zero at the lags longer than the diameter. -/
theorem pupilTransfer_eq_pairsApart {s : PupilSettings ℝ} (hbuild : s.build = .ok k.pupil)
    (hoversampling : 1 ≤ s.oversampling) :
    (∀ i j : Fin k.pupil.side, k.pupilTransfer.get i j = .ofReal (k.pupil.side ^ 2 *
      k.pupil.pairsApart (lag k.pupil.side i) (lag k.pupil.side j))) ∧
    (∀ i j i' j', k.pupil.mask.get i j → k.pupil.mask.get i' j' →
      i.val < i'.val + k.pupil.side / 2 ∧ j.val < j'.val + k.pupil.side / 2) ∧
    (∀ i j, 0 ≤ (k.pupilTransfer.get i j).re ∧ (k.pupilTransfer.get i j).im = 0) ∧
    (∃ hside : 0 < k.pupil.side, k.pupilTransfer.get ⟨0, hside⟩ ⟨0, hside⟩ =
      .ofReal (k.pupil.side ^ 2 * k.pupil.samples.size)) ∧
    ∀ i j : Fin k.pupil.side, k.pupil.diameter < √((lag k.pupil.side i * k.pupil.scale) ^ 2 +
      (lag k.pupil.side j * k.pupil.scale) ^ 2) → k.pupilTransfer.get i j = .zero := by
  have hside := k.pupil.side_pos (PupilSettings.samples_pos hbuild)
  have : NeZero k.pupil.side := ⟨hside.ne'⟩
  have hclose : ∀ i j i' j', k.pupil.mask.get i j → k.pupil.mask.get i' j' →
      i.val < i'.val + k.pupil.side / 2 ∧ j.val < j'.val + k.pupil.side / 2 :=
    fun _ _ _ _ => PupilSettings.lt_add_half_side hbuild hoversampling
  have hcounts : ∀ i j, k.pupilTransfer.get i j =
      .ofReal (k.pupil.side ^ 2 * k.overlap i j) := by
    intro i j
    rw [← Amplitude.toComplex_eq_ofReal_iff]
    exact k.toComplex_pupilTransfer i j
  have hpairs := k.overlap_eq_pairsApart (PupilSettings.even_side hbuild) hclose
  refine ⟨?_, hclose, ?_, ⟨hside, ?_⟩, ?_⟩
  · intro i j
    rw [hcounts, hpairs]
  · intro i j
    have hoverlap := k.overlap_nonneg i j
    rw [hcounts]
    exact ⟨by simp only [Amplitude.ofReal]; positivity, Scalar.real_zero⟩
  · rw [hcounts, ← k.overlap_zero]
    rfl
  · intro i j hfar
    rw [hcounts, hpairs, PupilSettings.pairsApart_of_lt hbuild hfar, Nat.cast_zero, mul_zero]
    simp [Amplitude.ofReal, Amplitude.zero]

/-- The pairs of samples of the coarse pupil, which has four samples along a side. -/
theorem pupilTransfer_eq_pairsApart_coarse : ∃ k : Kick ℝ, KickSettings.coarse.build = .ok k ∧
    PupilSettings.coarse.build = .ok k.pupil ∧ 1 ≤ PupilSettings.coarse.oversampling ∧
    k.pupil.side = 4 ∧
    (∀ i j : Fin k.pupil.side, k.pupilTransfer.get i j = .ofReal (k.pupil.side ^ 2 *
      k.pupil.pairsApart (lag k.pupil.side i) (lag k.pupil.side j))) ∧
    ∃ hside : 0 < k.pupil.side, k.pupilTransfer.get ⟨0, hside⟩ ⟨0, hside⟩ =
      .ofReal (k.pupil.side ^ 2 * k.pupil.samples.size) := by
  obtain ⟨k, hk⟩ := KickSettings.build_coarse
  obtain ⟨-, -, -, hbuild, -⟩ := KickSettings.build_eq_ok_iff.1 hk
  rw [KickSettings.forImage_coarse] at hbuild
  obtain ⟨hcounts, -, -, hzero, -⟩ := pupilTransfer_eq_pairsApart k hbuild le_rfl
  exact ⟨k, hk, hbuild, le_rfl, KickSettings.side_coarse hk, hcounts, hzero⟩

end Kick

end Seeing
