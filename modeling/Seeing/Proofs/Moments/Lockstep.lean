import Seeing.Proofs.Moments.Run

/-!
# Fits that run in step

An iteration moves a weight and then tests where it has come: `MovesTo` leaves the test
out, and `Tests` says which weights a fit tests. Two fits whose iterations do the same up
to a map of the weights come to corresponding weights, `Reaches.map`, and have
corresponding results, `find_eq_map_of_steps`.
-/

namespace Seeing

/-- A result that corresponds to an error is that error. -/
theorem eq_error_of_map_eq_error {ε β γ : Type} {f : β → γ} {r : Except ε β} {e : ε}
    (hmap : r.map f = .error e) : r = .error e := by
  cases r with
  | ok b => cases hmap
  | error e' =>
      cases hmap
      rfl

namespace MomentsFit

variable {α : Type} [Scalar α] {fit : MomentsFit α} {image image' : Image α}
  {f : Weight α → Weight α} {w v : Weight α} {n : ℕ}

/-- The weight that an iteration moves to, before it tests where it has come. -/
def MovesTo (image : Image α) (w v : Weight α) : Prop :=
  ∃ inverse, w.covariance.inverse? = some inverse ∧
    0 < (sumsUnder image w inverse).flux ∧
    (sumsUnder image w inverse).covariance.IsPositive ∧
    v = w.moved (sumsUnder image w inverse)

/-- The weights that a fit tests against the bounds of the image. -/
def Tests (fit : MomentsFit α) (image : Image α) (v : Weight α) : Prop :=
  ∃ n w, n < fit.maxIterations ∧ fit.Reaches image n w ∧ MovesTo image w v

theorem MovesTo.step_eq (hmoves : MovesTo image w v) (fit : MomentsFit α) :
    ∃ settled, fit.step image w =
      if isOutside image v then .error .outOfBounds else .ok (v, settled) := by
  obtain ⟨inverse, hinverse, hflux, hpositive, rfl⟩ := hmoves
  rw [step_of_inverse hinverse, if_pos hflux, if_pos hpositive]
  exact ⟨_, rfl⟩

theorem MovesTo.find_eq_outOfBounds (hmoves : MovesTo image w v) (hn : n < fit.maxIterations)
    (hw : fit.Reaches image n w) (houtside : isOutside image v = true) :
    fit.find image = .error .outOfBounds := by
  obtain ⟨settled, hstep⟩ := hmoves.step_eq fit
  rw [if_pos houtside] at hstep
  exact find_eq_error_iff.2 (.inr (.inr ⟨n, w, hn, hw, .inl hstep⟩))

/-- Two fits in step come to corresponding weights. -/
theorem Reaches.map (hinitial : fit.initial image' = (fit.initial image).map f)
    (hstep : ∀ k v, k < n → fit.Reaches image k v →
      fit.step image' (f v) = (fit.step image v).map (Prod.map f id))
    (hw : fit.Reaches image n w) : fit.Reaches image' n (f w) := by
  induction n generalizing w with
  | zero =>
      rw [reaches_zero_iff] at hw ⊢
      rw [hinitial, hw]
      rfl
  | succ n ih =>
      obtain ⟨v, hv, hlast⟩ := reaches_succ_iff.1 hw
      refine reaches_succ_iff.2 ⟨f v, ih (fun k u hk => hstep k u (by omega)) hv, ?_⟩
      rw [hstep n v (by omega) hv, hlast]
      rfl

/-- Two fits in step have corresponding results. -/
theorem find_eq_map_of_steps {g : Shape α → Shape α}
    (hinitial : fit.initial image' = (fit.initial image).map f)
    (hshape : ∀ w n, shapeOf image' (f w) n = (shapeOf image w n).map g)
    (hstep : ∀ n w, n < fit.maxIterations → fit.Reaches image n w →
      fit.step image' (f w) = (fit.step image w).map (Prod.map f id)) :
    fit.find image' = (fit.find image).map g := by
  have hreaches : ∀ n w, n ≤ fit.maxIterations → fit.Reaches image n w →
      fit.Reaches image' n (f w) := fun n w hn =>
    Reaches.map hinitial fun k v hk => hstep k v (by omega)
  cases hfind : fit.find image with
  | ok s =>
      obtain ⟨n, w, v, hn, hw, hlast, hs⟩ := find_eq_ok_iff.1 hfind
      refine find_eq_ok_iff.2 ⟨n, f w, f v, hn, hreaches n w (Nat.le_of_lt hn) hw, ?_, ?_⟩
      · rw [hstep n w hn hw, hlast]
        rfl
      · rw [hshape, hs]
        rfl
  | error e =>
      refine find_eq_error_iff.2 ?_
      obtain hfirst | ⟨w, hw, rfl⟩ | ⟨n, w, hn, hw, hends⟩ := find_eq_error_iff.1 hfind
      · left
        rw [hinitial, hfirst]
        rfl
      · exact .inr (.inl ⟨f w, hreaches _ w (Nat.le_refl _) hw, rfl⟩)
      · refine .inr (.inr ⟨n, f w, hn, hreaches n w (Nat.le_of_lt hn) hw, ?_⟩)
        rw [hstep n w hn hw]
        obtain hfails | ⟨v, hlast, hs⟩ := hends
        · left
          rw [hfails]
          rfl
        · right
          refine ⟨f v, ?_, ?_⟩
          · rw [hlast]
            rfl
          · rw [hshape, hs]
            rfl

end MomentsFit

end Seeing
