import Seeing.Proofs.Complex
import Seeing.Proofs.Fourier.Sum

/-!
# The transform of a row

`transform` splits a long row at its smallest factor into interleaved rows. Over
the complex numbers it takes the defining sum all the same, whatever the length:
`toComplex_transform`. The induction is on the length, and its step is the
rearrangement `sum_everyNth` of a sum into the sums over the interleaved places.

A row is rotated by multiples of one part of a turn. `Direction.Rotates` says what
is asked of the rotation; the rotation of the interleaved rows has it again, and
the tabulated one has it with the quarter turns that are taken without
multiplication.
-/

open Complex

namespace Seeing

namespace Direction

/-- The factor `exp (∓2πi k/n)` of a rotation by `k / n` of a turn. -/
noncomputable def kernel (d : Direction) (n k : ℕ) : ℂ :=
  exp (d.sign * (2 * Real.pi * I) * k / n)

@[simp] theorem kernel_zero (d : Direction) (n : ℕ) : d.kernel n 0 = 1 := by
  simp [kernel]

theorem kernel_add (d : Direction) (n k l : ℕ) :
    d.kernel n (k + l) = d.kernel n k * d.kernel n l := by
  rw [kernel, kernel, kernel, ← Complex.exp_add]
  congr 1
  push_cast
  ring

theorem turn_natCast_eq_kernel (d : Direction) {n : ℕ} [NeZero n] (k : ℕ) :
    d.turn (k : ZMod n) = d.kernel n k := turn_natCast d k

/-- Whole turns do not count. -/
theorem kernel_congr (d : Direction) {n k l : ℕ} (hn : 0 < n) (hkl : k ≡ l [MOD n]) :
    d.kernel n k = d.kernel n l := by
  have : NeZero n := ⟨hn.ne'⟩
  rw [← turn_natCast_eq_kernel, ← turn_natCast_eq_kernel,
    (ZMod.natCast_eq_natCast_iff k l n).2 hkl]

/-- A turn in fewer parts is a turn in more parts taken several at a time. -/
theorem kernel_div (d : Direction) {n p : ℕ} (hp : 0 < p) (hpn : p ∣ n) (k : ℕ) :
    d.kernel n (k * p) = d.kernel (n / p) k := by
  have hp' : (p : ℂ) ≠ 0 := Nat.cast_ne_zero.2 hp.ne'
  rw [kernel, kernel, Nat.cast_div hpn hp', Nat.cast_mul, div_div_eq_mul_div]
  congr 1
  ring

/-- The two rotations of a split transform make the one of the defining sum. -/
theorem kernel_mul_kernel_div (d : Direction) {n p : ℕ} (hp : 0 < p) (hpn : p ∣ n)
    (hm : 0 < n / p) (j k r : ℕ) :
    d.kernel n (r * k) * d.kernel (n / p) (k % (n / p) * j) =
      d.kernel n (k * (j * p + r)) := by
  have hmod : k % (n / p) * j ≡ k * j [MOD n / p] := (Nat.mod_modEq k _).mul_right j
  rw [kernel_congr d hm hmod, ← kernel_div d hp hpn, ← kernel_add]
  congr 1
  ring

/-- The rotation by `k` parts of `n` multiplies by the kernel. -/
def Rotates (d : Direction) (n : ℕ) (rotate : ℕ → Amplitude ℝ → Amplitude ℝ) : Prop :=
  ∀ k a, (rotate k a).toComplex = d.kernel n k * a.toComplex

theorem Rotates.div {d : Direction} {n p : ℕ} {rotate : ℕ → Amplitude ℝ → Amplitude ℝ}
    (hrotate : d.Rotates n rotate) (hp : 0 < p) (hpn : p ∣ n) :
    d.Rotates (n / p) fun k => rotate (k * p) := by
  intro k a
  rw [hrotate, kernel_div d hp hpn]

end Direction

theorem smallestFactor_dvd (n : ℕ) : smallestFactor n ∣ n := by
  rw [smallestFactor]
  cases h : (List.range n).find? fun p => 2 ≤ p ∧ n % p = 0 with
  | none => exact dvd_rfl
  | some p =>
      have hp := List.find?_some h
      simp only [decide_eq_true_eq] at hp
      exact Nat.dvd_of_mod_eq_zero hp.2

/-- A sum over a row, place after place of the interleaved rows. -/
theorem sum_everyNth {n p : ℕ} (hpn : p ∣ n) (f : Fin n → ℂ) :
    ∑ l, f l = ∑ r : Fin p, ∑ j : Fin (n / p), f ⟨j * p + r, everyNth_lt j r⟩ := by
  let place : Fin (n / p) × Fin p ≃ Fin n :=
    finProdFinEquiv.trans (finCongr (Nat.div_mul_cancel hpn))
  rw [← place.sum_comp, Fintype.sum_prod_type, Finset.sum_comm]
  apply Finset.sum_congr rfl
  intro r _
  apply Finset.sum_congr rfl
  intro j _
  congr 1
  apply Fin.ext
  simp [place, finProdFinEquiv, Nat.mul_comm, Nat.add_comm]

theorem toComplex_directTransform {d : Direction} {n : ℕ}
    {rotate : ℕ → Amplitude ℝ → Amplitude ℝ} (hrotate : d.Rotates n rotate)
    (x : Vector (Amplitude ℝ) n) (k : Fin n) :
    ((directTransform rotate x).get k).toComplex =
      ∑ j : Fin n, (x.get j).toComplex * d.kernel n (k * j) := by
  simp only [directTransform, Vector.get_eq_getElem, Vector.getElem_ofFn,
    Amplitude.toComplex_sumBelow]
  apply Finset.sum_congr rfl
  intro j _
  rw [hrotate, mul_comm, Nat.mul_comm]

/-- The transform of a row is its defining sum. -/
theorem toComplex_transform {d : Direction} {n : ℕ}
    {rotate : ℕ → Amplitude ℝ → Amplitude ℝ} (hrotate : d.Rotates n rotate)
    (x : Vector (Amplitude ℝ) n) (k : Fin n) :
    ((transform rotate x).get k).toComplex =
      ∑ j : Fin n, (x.get j).toComplex * d.kernel n (k * j) := by
  induction n using Nat.strong_induction_on generalizing rotate with
  | _ n ih =>
    rw [transform]
    split
    case isFalse => exact toComplex_directTransform hrotate x k
    case isTrue hsplit =>
      have hp : 0 < smallestFactor n := by omega
      have hpn := smallestFactor_dvd n
      have hlt : n / smallestFactor n < n := Nat.div_lt_self (by omega) hsplit.2.1
      simp only [Vector.get_ofFn, Vector.getElem_ofFn, Amplitude.toComplex_sumBelow]
      rw [sum_everyNth hpn]
      apply Finset.sum_congr rfl
      intro r _
      have hm : 0 < n / smallestFactor n := Nat.div_pos hsplit.2.2 hp
      have hpart := ih _ hlt (hrotate.div hp hpn) (everyNth (smallestFactor n) x r)
        ⟨k % (n / smallestFactor n), Nat.mod_lt _ hm⟩
      rw [Vector.get_eq_getElem] at hpart
      rw [hrotate, hpart, Finset.mul_sum]
      apply Finset.sum_congr rfl
      intro j _
      rw [← Direction.kernel_mul_kernel_div d hp hpn hm]
      simp only [everyNth, Vector.get_eq_getElem, Vector.getElem_ofFn]
      ring

end Seeing
