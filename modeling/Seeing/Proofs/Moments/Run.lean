import Mathlib.Data.Nat.Notation
import Mathlib.Tactic.SplitIfs
import Seeing.Image.Moments

/-!
# The iterations of a fit

One iteration sums the image under the weight, moves the weight to what the sums say
and tests where it has come: `step_of_inverse`. Iterations that do not converge lead
from one weight to the next, `StepsTo`, and do not look at the budget. What a fit gives
is then decided by the last iteration it reaches: `find_eq_ok_iff` names the one that
converged, `find_eq_error_iff` the one that failed, or the budget.
-/

namespace Seeing

variable {α : Type} [Scalar α]

namespace WeightedSums

/-- How far the weighted mean lies from the centre. -/
def shift (s : WeightedSums α) : α × α := (s.x / s.flux, s.y / s.flux)

/-- Twice the weighted second moments about the weighted mean. -/
def covariance (s : WeightedSums α) : Covariance α :=
  ⟨(s.second.xx / s.flux - s.shift.1 * s.shift.1) * 2,
    (s.second.xy / s.flux - s.shift.1 * s.shift.2) * 2,
    (s.second.yy / s.flux - s.shift.2 * s.shift.2) * 2⟩

end WeightedSums

/-- The criterion of positive definiteness by the leading minors. -/
def Covariance.IsPositive (m : Covariance α) : Prop := 0 < m.xx ∧ 0 < m.det

instance instDecidableIsPositive (m : Covariance α) : Decidable m.IsPositive :=
  inferInstanceAs (Decidable (_ ∧ _))

/-- The weight that an iteration moves to, before any test of it. -/
def Weight.moved (w : Weight α) (s : WeightedSums α) : Weight α :=
  ⟨w.x + s.shift.1, w.y + s.shift.2, s.covariance⟩

namespace MomentsFit

variable (fit : MomentsFit α) (image : Image α)

/-- The sums of an image under a weight with the given inverse covariance. -/
def sumsUnder (w : Weight α) (inverse : Covariance α) : WeightedSums α :=
  sums image w.x w.y inverse

/-- Whether neither the centre nor the covariance changes by more than the tolerance. -/
def hasSettled (w : Weight α) (s : WeightedSums α) : Bool :=
  Scalar.sqrt (s.shift.1 * s.shift.1 + s.shift.2 * s.shift.2) < fit.tolerance &&
    s.covariance.distance w.covariance / w.covariance.trace < fit.tolerance

section Step

variable {fit image} {w v : Weight α} {inverse : Covariance α} {settled : Bool}

theorem step_of_inverse (hinverse : w.covariance.inverse? = some inverse) :
    fit.step image w =
      if 0 < (sumsUnder image w inverse).flux then
        if (sumsUnder image w inverse).covariance.IsPositive then
          if isOutside image (w.moved (sumsUnder image w inverse)) then .error .outOfBounds
          else .ok (w.moved (sumsUnder image w inverse),
            fit.hasSettled w (sumsUnder image w inverse))
        else .error .notPositiveDefinite
      else .error .noFlux := by
  have htests : fit.step image w =
      if !(0 < (sumsUnder image w inverse).flux) then .error .noFlux
      else if !(0 < (sumsUnder image w inverse).covariance.xx &&
          0 < (sumsUnder image w inverse).covariance.det) then .error .notPositiveDefinite
      else if isOutside image (w.moved (sumsUnder image w inverse)) then .error .outOfBounds
      else .ok (w.moved (sumsUnder image w inverse),
        fit.hasSettled w (sumsUnder image w inverse)) := by
    rw [step, hinverse]
    rfl
  rw [htests]
  simp only [Bool.not_eq_true', decide_eq_false_iff_not, ite_not, ← Bool.decide_and,
    Covariance.IsPositive]
  rfl

theorem step_of_inverse_eq_none (hinverse : w.covariance.inverse? = none) :
    fit.step image w = .error .notPositiveDefinite := by
  rw [step, hinverse]

/-- An iteration that gives a weight, with all tests that the weight has passed. -/
theorem step_eq_ok_iff :
    fit.step image w = .ok (v, settled) ↔
      ∃ inverse, w.covariance.inverse? = some inverse ∧
        0 < (sumsUnder image w inverse).flux ∧
        (sumsUnder image w inverse).covariance.IsPositive ∧ isOutside image v = false ∧
        v = w.moved (sumsUnder image w inverse) ∧
        settled = fit.hasSettled w (sumsUnder image w inverse) := by
  cases hinverse : w.covariance.inverse? with
  | none => simp [step_of_inverse_eq_none hinverse]
  | some inverse =>
      rw [step_of_inverse hinverse]
      constructor
      · intro hstep
        split_ifs at hstep with hflux hcovariance houtside
        obtain ⟨rfl, rfl⟩ := Prod.mk.inj (Except.ok.inj hstep)
        exact ⟨inverse, rfl, hflux, hcovariance, by simpa using houtside, rfl, rfl⟩
      · rintro ⟨_, ⟨rfl⟩, hflux, hcovariance, houtside, rfl, rfl⟩
        rw [if_pos hflux, if_pos hcovariance, if_neg (by simp [houtside])]

theorem step_eq_noFlux_iff :
    fit.step image w = .error .noFlux ↔
      ∃ inverse, w.covariance.inverse? = some inverse ∧
        ¬0 < (sumsUnder image w inverse).flux := by
  cases hinverse : w.covariance.inverse? with
  | none => simp [step_of_inverse_eq_none hinverse]
  | some inverse =>
      rw [step_of_inverse hinverse]
      split_ifs <;> simp [*]

theorem step_eq_notPositiveDefinite_iff :
    fit.step image w = .error .notPositiveDefinite ↔
      w.covariance.inverse? = none ∨
        ∃ inverse, w.covariance.inverse? = some inverse ∧
          0 < (sumsUnder image w inverse).flux ∧
          ¬(sumsUnder image w inverse).covariance.IsPositive := by
  cases hinverse : w.covariance.inverse? with
  | none => simp [step_of_inverse_eq_none hinverse]
  | some inverse =>
      rw [step_of_inverse hinverse]
      split_ifs <;> simp [*]

theorem step_eq_outOfBounds_iff :
    fit.step image w = .error .outOfBounds ↔
      ∃ inverse, w.covariance.inverse? = some inverse ∧
        0 < (sumsUnder image w inverse).flux ∧
        (sumsUnder image w inverse).covariance.IsPositive ∧
        isOutside image (w.moved (sumsUnder image w inverse)) := by
  cases hinverse : w.covariance.inverse? with
  | none => simp [step_of_inverse_eq_none hinverse]
  | some inverse =>
      rw [step_of_inverse hinverse]
      split_ifs <;> simp [*]

end Step

/-- Iterations that do not converge lead from one weight to another, `n` of them. -/
inductive StepsTo : ℕ → Weight α → Weight α → Prop
  | refl (w : Weight α) : StepsTo 0 w w
  | head {n : ℕ} {w v u : Weight α} (hstep : fit.step image w = .ok (v, false))
      (hsteps : StepsTo n v u) : StepsTo (n + 1) w u

/-- The weight after the first `n` iterations, none of which has converged. -/
def Reaches (n : ℕ) (w : Weight α) : Prop :=
  ∃ v, fit.initial image = .ok v ∧ fit.StepsTo image n v w

variable {fit image}

theorem StepsTo.tail {n : ℕ} {w v u : Weight α} (hsteps : fit.StepsTo image n w v)
    (hstep : fit.step image v = .ok (u, false)) : fit.StepsTo image (n + 1) w u := by
  induction hsteps with
  | refl w => exact .head hstep (.refl u)
  | head hfirst _ ih => exact .head hfirst (ih hstep)

theorem StepsTo.exists_last {n : ℕ} {w u : Weight α}
    (hsteps : fit.StepsTo image (n + 1) w u) :
    ∃ v, fit.StepsTo image n w v ∧ fit.step image v = .ok (u, false) := by
  induction n generalizing w with
  | zero =>
      obtain _ | ⟨hstep, hsteps⟩ := hsteps
      cases hsteps
      exact ⟨w, .refl w, hstep⟩
  | succ n ih =>
      obtain _ | ⟨hstep, hsteps⟩ := hsteps
      obtain ⟨v, hsteps, hlast⟩ := ih hsteps
      exact ⟨v, .head hstep hsteps, hlast⟩

theorem reaches_zero_iff {w : Weight α} :
    fit.Reaches image 0 w ↔ fit.initial image = .ok w := by
  constructor
  · rintro ⟨v, hinitial, hsteps⟩
    cases hsteps
    exact hinitial
  · intro hinitial
    exact ⟨w, hinitial, .refl w⟩

/-- Every weight but the first one is the result of an iteration. -/
theorem reaches_succ_iff {n : ℕ} {u : Weight α} :
    fit.Reaches image (n + 1) u ↔
      ∃ w, fit.Reaches image n w ∧ fit.step image w = .ok (u, false) := by
  constructor
  · rintro ⟨v, hinitial, hsteps⟩
    obtain ⟨w, hsteps, hstep⟩ := hsteps.exists_last
    exact ⟨w, ⟨v, hinitial, hsteps⟩, hstep⟩
  · rintro ⟨w, ⟨v, hinitial, hsteps⟩, hstep⟩
    exact ⟨v, hinitial, hsteps.tail hstep⟩

section Iterate

variable {remaining done : ℕ} {w : Weight α} {s : Shape α} {e : MomentsError}

/-- A fit succeeds by an iteration that converges, within the budget. -/
theorem iterate_eq_ok_iff :
    fit.iterate image remaining done w = .ok s ↔
      ∃ n v u, n < remaining ∧ fit.StepsTo image n w v ∧
        fit.step image v = .ok (u, true) ∧ shapeOf image u (done + n + 1) = .ok s := by
  induction remaining generalizing done w with
  | zero => simp [iterate]
  | succ remaining ih =>
      rw [iterate]
      constructor
      · intro hiterate
        split at hiterate
        next => cases hiterate
        next u hstep => exact ⟨0, w, u, by omega, .refl w, hstep, hiterate⟩
        next u hstep =>
          obtain ⟨n, v, u', hn, hsteps, hlast, hshape⟩ := ih.1 hiterate
          refine ⟨n + 1, v, u', by omega, .head hstep hsteps, hlast, ?_⟩
          rwa [show done + (n + 1) + 1 = done + 1 + n + 1 by omega]
      · rintro ⟨n, v, u, hn, hsteps, hlast, hshape⟩
        cases hsteps with
        | refl => rwa [hlast]
        | @head n _ v' _ hstep hsteps =>
            rw [hstep]
            refine ih.2 ⟨n, v, u, by omega, hsteps, hlast, ?_⟩
            rwa [show done + 1 + n + 1 = done + (n + 1) + 1 by omega]

/-- A fit fails by an iteration, by the shape after the last one, or at the end of the
budget. -/
theorem iterate_eq_error_iff :
    fit.iterate image remaining done w = .error e ↔
      (∃ v, fit.StepsTo image remaining w v ∧ e = .notConverged (done + remaining)) ∨
        ∃ n v, n < remaining ∧ fit.StepsTo image n w v ∧
          (fit.step image v = .error e ∨
            ∃ u, fit.step image v = .ok (u, true) ∧
              shapeOf image u (done + n + 1) = .error e) := by
  induction remaining generalizing done w with
  | zero =>
      rw [iterate]
      constructor
      · rintro ⟨rfl⟩
        exact .inl ⟨w, .refl w, rfl⟩
      · rintro (⟨v, -, rfl⟩ | ⟨n, v, hn, -⟩)
        · rfl
        · omega
  | succ remaining ih =>
      rw [iterate]
      constructor
      · intro hiterate
        split at hiterate
        next e' hstep =>
          cases hiterate
          exact .inr ⟨0, w, by omega, .refl w, .inl hstep⟩
        next u hstep => exact .inr ⟨0, w, by omega, .refl w, .inr ⟨u, hstep, hiterate⟩⟩
        next u hstep =>
          obtain ⟨v, hsteps, rfl⟩ | ⟨n, v, hn, hsteps, hlast⟩ := ih.1 hiterate
          · refine .inl ⟨v, .head hstep hsteps, ?_⟩
            rw [show done + (remaining + 1) = done + 1 + remaining by omega]
          · refine .inr ⟨n + 1, v, by omega, .head hstep hsteps, ?_⟩
            rwa [show done + (n + 1) + 1 = done + 1 + n + 1 by omega]
      · rintro (⟨v, hsteps, rfl⟩ | ⟨n, v, hn, hsteps, hlast⟩)
        · obtain _ | ⟨hstep, hsteps⟩ := hsteps
          rw [hstep]
          refine ih.2 (.inl ⟨v, hsteps, ?_⟩)
          rw [show done + (remaining + 1) = done + 1 + remaining by omega]
        · cases hsteps with
          | refl =>
              obtain hstep | ⟨u, hstep, hshape⟩ := hlast
              · rw [hstep]
              · rwa [hstep]
          | @head n _ v' _ hstep hsteps =>
              rw [hstep]
              refine ih.2 (.inr ⟨n, v, by omega, hsteps, ?_⟩)
              rwa [show done + 1 + n + 1 = done + (n + 1) + 1 by omega]

theorem find_eq_ok_iff :
    fit.find image = .ok s ↔
      ∃ n w v, n < fit.maxIterations ∧ fit.Reaches image n w ∧
        fit.step image w = .ok (v, true) ∧ shapeOf image v (n + 1) = .ok s := by
  rw [find]
  cases hinitial : fit.initial image with
  | error e => simp [Reaches, hinitial]
  | ok w => simp [iterate_eq_ok_iff, Reaches, hinitial]

theorem find_eq_error_iff :
    fit.find image = .error e ↔
      fit.initial image = .error e ∨
        (∃ w, fit.Reaches image fit.maxIterations w ∧
          e = .notConverged fit.maxIterations) ∨
        ∃ n w, n < fit.maxIterations ∧ fit.Reaches image n w ∧
          (fit.step image w = .error e ∨
            ∃ v, fit.step image w = .ok (v, true) ∧ shapeOf image v (n + 1) = .error e) := by
  rw [find]
  cases hinitial : fit.initial image with
  | error e => simp [Reaches, hinitial]
  | ok w => simp [iterate_eq_error_iff, Reaches, hinitial]

end Iterate

section Shape

variable {w : Weight α} {iterations : ℕ} {s : Shape α} {e : MomentsError}

theorem shapeOf_eq_ok_iff :
    shapeOf image w iterations = .ok s ↔
      ∃ inverse, w.covariance.inverse? = some inverse ∧
        s =
          { size := Scalar.pow w.covariance.det 0.25
            centre := (w.x, w.y)
            amplitude := 2 * (sumsUnder image w inverse).flux
            e1 := (w.covariance.xx - w.covariance.yy) / w.covariance.trace
            e2 := 2 * w.covariance.xy / w.covariance.trace
            iterations := iterations } := by
  rw [shapeOf]
  cases w.covariance.inverse? with
  | none => simp
  | some inverse => simp [sumsUnder, eq_comm]

theorem shapeOf_eq_error_iff :
    shapeOf image w iterations = .error e ↔
      w.covariance.inverse? = none ∧ e = .notPositiveDefinite := by
  rw [shapeOf]
  cases w.covariance.inverse? with
  | none => simp [eq_comm]
  | some inverse => simp

end Shape

end MomentsFit

end Seeing
