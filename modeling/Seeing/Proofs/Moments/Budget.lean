import Seeing.Proofs.Moments.Flux

/-!
# The budget of a fit

The budget only says where a fit stops. The iterations do not look at it, so two fits
that differ in nothing else come to the same weights, `reaches_withBudget_iff`, and a fit
that ends by one of its iterations ends there with any larger budget. A fit that uses up
its budget has come to a weight that none of its iterations has settled. One with a
larger budget goes on from there: `step_of_reaches` leaves it no earlier end.
-/

namespace Seeing

namespace MomentsFit

variable {α : Type} [Scalar α] {fit : MomentsFit α} {image : Image α}

/-- The same fit with another largest number of iterations. -/
def withBudget (fit : MomentsFit α) (budget : ℕ) : MomentsFit α :=
  { fit with maxIterations := budget }

/-- Iteration `n + 1`, on the given weight, ends the fit with an error: it fails itself, or it
settles on a weight without a shape. -/
def EndsIn (fit : MomentsFit α) (image : Image α) (n : ℕ) (w : Weight α)
    (e : MomentsError) : Prop :=
  fit.step image w = .error e ∨
    ∃ v, fit.step image w = .ok (v, true) ∧ shapeOf image v (n + 1) = .error e

section Errors

variable {w : Weight α} {n k : ℕ}

theorem initial_ne_notConverged : fit.initial image ≠ .error (.notConverged k) := by
  intro hinitial
  rw [initial] at hinitial
  obtain ⟨flux, x, y⟩ := positiveSums image
  simp only at hinitial
  split_ifs at hinitial
  cases hinitial

/-- No iteration speaks of the budget. -/
theorem not_endsIn_notConverged : ¬fit.EndsIn image n w (.notConverged k) := by
  rintro (hstep | ⟨v, -, hshape⟩)
  · cases hinverse : w.covariance.inverse? with
    | none => simp [step_of_inverse_eq_none hinverse] at hstep
    | some inverse =>
        rw [step_of_inverse hinverse] at hstep
        split_ifs at hstep <;> cases hstep
  · cases (shapeOf_eq_error_iff.1 hshape).2

end Errors

section Reaches

variable {w v : Weight α} {n m : ℕ}

theorem Reaches.unique (hw : fit.Reaches image n w) (hv : fit.Reaches image n v) : w = v := by
  induction n generalizing w v with
  | zero =>
      rw [reaches_zero_iff] at hw hv
      exact Except.ok.inj (hw.symm.trans hv)
  | succ n ih =>
      obtain ⟨w', hw', hstep⟩ := reaches_succ_iff.1 hw
      obtain ⟨v', hv', hstep'⟩ := reaches_succ_iff.1 hv
      obtain rfl := ih hw' hv'
      exact (Prod.mk.inj (Except.ok.inj (hstep.symm.trans hstep'))).1

/-- A fit that comes to a later weight has settled on no earlier one. -/
theorem step_of_reaches (hw : fit.Reaches image n w) (hv : fit.Reaches image m v)
    (hmn : m < n) : ∃ u, fit.step image v = .ok (u, false) := by
  induction n generalizing w with
  | zero => omega
  | succ n ih =>
      obtain ⟨w', hw', hstep⟩ := reaches_succ_iff.1 hw
      obtain hlt | rfl := Nat.lt_succ_iff_lt_or_eq.1 hmn
      · exact ih hw' hlt
      · obtain rfl := hw'.unique hv
        exact ⟨w, hstep⟩

theorem reaches_withBudget_iff {budget : ℕ} :
    (fit.withBudget budget).Reaches image n w ↔ fit.Reaches image n w := by
  induction n generalizing w with
  | zero =>
      rw [reaches_zero_iff, reaches_zero_iff]
      rfl
  | succ n ih =>
      rw [reaches_succ_iff, reaches_succ_iff]
      exact exists_congr fun v => and_congr_left fun _ => ih

end Reaches

section Budget

variable {budget : ℕ} {s : Shape α} {e : MomentsError}

theorem find_withBudget_eq_ok_iff :
    (fit.withBudget budget).find image = .ok s ↔
      ∃ n w v, n < budget ∧ fit.Reaches image n w ∧
        fit.step image w = .ok (v, true) ∧ shapeOf image v (n + 1) = .ok s := by
  simp only [find_eq_ok_iff, reaches_withBudget_iff]
  rfl

theorem find_withBudget_eq_error_iff :
    (fit.withBudget budget).find image = .error e ↔
      fit.initial image = .error e ∨
        (∃ w, fit.Reaches image budget w ∧ e = .notConverged budget) ∨
        ∃ n w, n < budget ∧ fit.Reaches image n w ∧ fit.EndsIn image n w e := by
  simp only [find_eq_error_iff, reaches_withBudget_iff]
  rfl

theorem find_eq_notConverged_iff :
    fit.find image = .error (.notConverged fit.maxIterations) ↔
      ∃ w, fit.Reaches image fit.maxIterations w := by
  refine find_eq_error_iff.trans ⟨?_, ?_⟩
  · rintro (hinitial | ⟨w, hreaches, -⟩ | ⟨n, w, -, -, hends⟩)
    · exact absurd hinitial initial_ne_notConverged
    · exact ⟨w, hreaches⟩
    · exact absurd hends not_endsIn_notConverged
  · rintro ⟨w, hreaches⟩
    exact .inr (.inl ⟨w, hreaches, rfl⟩)

/-- An iteration that ends a fit comes after all iterations that have not settled. -/
theorem le_of_ends {w v : Weight α} {n m : ℕ} (hw : fit.Reaches image n w)
    (hv : fit.Reaches image m v) (hends : ∀ u, fit.step image v ≠ .ok (u, false)) : n ≤ m := by
  by_contra hlt
  obtain ⟨u, hstep⟩ := step_of_reaches hw hv (not_le.1 hlt)
  exact hends u hstep

theorem EndsIn.step_ne {w : Weight α} {n : ℕ} (hends : fit.EndsIn image n w e)
    (u : Weight α) : fit.step image w ≠ .ok (u, false) := by
  intro hstep
  obtain hfails | ⟨v, hsettles, -⟩ := hends
  · rw [hstep] at hfails
    cases hfails
  · rw [hstep] at hsettles
    cases hsettles

end Budget

/-- A fit that does not use up its budget gives the same with any larger one. If it uses
it up, then one with a larger budget takes more iterations to a shape, uses up its own
budget as well, or fails in an iteration after the smaller budget. -/
theorem find_withBudget_of_le (fit : MomentsFit α) (image : Image α) {budget : ℕ}
    (hbudget : fit.maxIterations ≤ budget) :
    (fit.find image ≠ .error (.notConverged fit.maxIterations) →
      (fit.withBudget budget).find image = fit.find image) ∧
    (fit.find image = .error (.notConverged fit.maxIterations) →
      (∃ s, (fit.withBudget budget).find image = .ok s ∧ fit.maxIterations < s.iterations) ∨
      (fit.withBudget budget).find image = .error (.notConverged budget) ∨
      ∃ e n w, (fit.withBudget budget).find image = .error e ∧
        fit.maxIterations ≤ n ∧ n < budget ∧ fit.Reaches image n w ∧
        fit.EndsIn image n w e) := by
  constructor
  · intro hends
    cases hfind : fit.find image with
    | ok s =>
        obtain ⟨n, w, v, hn, hreached⟩ := find_eq_ok_iff.1 hfind
        exact find_withBudget_eq_ok_iff.2 ⟨n, w, v, hn.trans_le hbudget, hreached⟩
    | error e =>
        refine find_withBudget_eq_error_iff.2 ?_
        obtain hinitial | ⟨w, -, rfl⟩ | ⟨n, w, hn, hreached⟩ := find_eq_error_iff.1 hfind
        · exact .inl hinitial
        · exact absurd hfind hends
        · exact .inr (.inr ⟨n, w, hn.trans_le hbudget, hreached⟩)
  · intro hfind
    obtain ⟨w, hw⟩ := find_eq_notConverged_iff.1 hfind
    cases hlarger : (fit.withBudget budget).find image with
    | ok s =>
        obtain ⟨n, v, u, hn, hv, hstep, hshape⟩ := find_withBudget_eq_ok_iff.1 hlarger
        have hle : fit.maxIterations ≤ n := le_of_ends hw hv fun _ => by simp [hstep]
        obtain ⟨inverse, -, rfl⟩ := shapeOf_eq_ok_iff.1 hshape
        exact .inl ⟨_, rfl, Nat.lt_succ_of_le hle⟩
    | error e =>
        right
        obtain hinitial | ⟨v, -, rfl⟩ | ⟨n, v, hn, hv, hends⟩ :=
          find_withBudget_eq_error_iff.1 hlarger
        · obtain ⟨v, hv, -⟩ := hw
          rw [hinitial] at hv
          cases hv
        · exact .inl rfl
        · exact .inr ⟨e, n, v, rfl, le_of_ends hw hv hends.step_ne, hn, hv, hends⟩

/-- Four equal pixels take two iterations: with a budget of one the fit gives up, with the
default one it finds the shape, and with a thousand it finds the same one. -/
theorem find_withBudget_of_le_fourPixels :
    (({} : MomentsFit ℝ).withBudget 1).find fourPixels = .error (.notConverged 1) ∧
    (∃ s, ({} : MomentsFit ℝ).find fourPixels = .ok s ∧ 1 < s.iterations) ∧
    (({} : MomentsFit ℝ).withBudget 1000).find fourPixels =
      ({} : MomentsFit ℝ).find fourPixels := by
  obtain ⟨s, hs⟩ := find_fourPixels
  have hgivesUp : (({} : MomentsFit ℝ).withBudget 1).find fourPixels =
      .error (.notConverged 1) :=
    find_eq_notConverged_iff.2 ⟨_, reaches_withBudget_iff.2 reaches_fourPixels⟩
  obtain ⟨-, hgoesOn⟩ := find_withBudget_of_le (({} : MomentsFit ℝ).withBudget 1) fourPixels
    (show 1 ≤ 400 by norm_num)
  obtain ⟨hsame, -⟩ := find_withBudget_of_le ({} : MomentsFit ℝ) fourPixels
    (show 400 ≤ 1000 by norm_num)
  refine ⟨hgivesUp, ?_, hsame (hs ▸ nofun)⟩
  obtain hmore | hnone | ⟨e, -, -, hfails, -⟩ := hgoesOn hgivesUp
  · exact hmore
  · exact absurd (hs.symm.trans hnone) nofun
  · exact absurd (hs.symm.trans hfails) nofun

end MomentsFit

end Seeing
