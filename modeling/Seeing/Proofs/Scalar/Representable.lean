import Seeing.Proofs.Scalar.Value

/-!
# Real numbers that are machine numbers

A real number that is some units of fifty three bits is the value of a machine number,
`representable_mul_zpow`, and from some size on these are whole, `Representable.floor_eq`. Rounding
a real number may go up or down, but not beyond the next number with a significand of this length,
and to a nearest one, `Faithful`. So it keeps the order of real numbers, `Faithful.le_of_lt`. How
large the numbers may be does not matter for this, `Floating`.
-/

open Float.Model
open Float.Model.UnpackedFloat

namespace Seeing

namespace Machine

/-- The real number is the value of a machine number. -/
def Representable (c : ℝ) : Prop :=
  ∃ (m : ℕ) (e : ℤ), Canonical m e ∧ e ≤ 971 ∧ |c| = m * 2 ^ e

/-- The real number has a significand of fifty three bits, whatever its size. -/
def Floating (c : ℝ) : Prop := ∃ (m : ℕ) (e : ℤ), Canonical m e ∧ |c| = m * 2 ^ e

/-- No number with a significand of fifty three bits lies between the two real numbers, and none is
nearer to the first one than the second. -/
structure Faithful (a b : ℝ) : Prop where
  le : ∀ c, Floating c → c ≤ a → c ≤ b
  ge : ∀ c, Floating c → a ≤ c → b ≤ c
  near : ∀ c, Floating c → |a - b| ≤ |a - c|

section Units

variable {a c : ℝ}

theorem representable_zero : Representable 0 :=
  ⟨0, -1074, ⟨by decide, le_rfl, .inr rfl⟩, by decide, by simp⟩

theorem Representable.neg (hc : Representable c) : Representable (-c) := by
  obtain ⟨m, e, hcanonical, he, habs⟩ := hc
  exact ⟨m, e, hcanonical, he, by rw [abs_neg, habs]⟩

theorem Representable.floating (hc : Representable c) : Floating c := by
  obtain ⟨m, e, hcanonical, -, habs⟩ := hc
  exact ⟨m, e, hcanonical, habs⟩

theorem Floating.neg (hc : Floating c) : Floating (-c) := by
  obtain ⟨m, e, hcanonical, habs⟩ := hc
  exact ⟨m, e, hcanonical, by rw [abs_neg, habs]⟩

/-- Fifty three bits of units are a machine number. -/
theorem representable_of_lt {k : ℕ} {e : ℤ} (hk : k < 2 ^ 53) (he : -1074 ≤ e) (he' : e ≤ 971) :
    Representable (k * 2 ^ e) := by
  rcases k.eq_zero_or_pos with rfl | hpos
  · rw [Nat.cast_zero, zero_mul]
    exact representable_zero
  have hlog : k.log2 < 53 := (Nat.log2_lt hpos.ne').2 hk
  have hlow := Nat.log2_self_le hpos.ne'
  have hhigh := Nat.lt_log2_self (n := k)
  -- the units are made smaller as far as there are machine numbers for them
  generalize hj : min (52 - k.log2) (e + 1074).toNat = j
  refine ⟨k * 2 ^ j, e - j, ⟨?_, by omega, ?_⟩, by omega, ?_⟩
  · calc k * 2 ^ j < 2 ^ (k.log2 + 1) * 2 ^ j := Nat.mul_lt_mul_of_pos_right hhigh (by positivity)
      _ = 2 ^ (k.log2 + 1 + j) := (pow_add _ _ _).symm
      _ ≤ 2 ^ 53 := Nat.pow_le_pow_right two_pos (by omega)
  · by_cases hfull : 52 - k.log2 ≤ (e + 1074).toNat
    · left
      calc 2 ^ 52 = 2 ^ k.log2 * 2 ^ j := by rw [← pow_add]; congr 1; omega
        _ ≤ k * 2 ^ j := Nat.mul_le_mul_right _ hlow
    · right
      omega
  · rw [abs_of_nonneg (by positivity), Nat.cast_mul, Nat.cast_pow, Nat.cast_two, mul_assoc,
      ← zpow_natCast, ← zpow_add₀ two_ne_zero]
    congr 2
    omega

theorem representable_mul_zpow {k : ℕ} {e : ℤ} (hk : k ≤ 2 ^ 53) (he : -1074 ≤ e)
    (he' : e ≤ 970) : Representable (k * 2 ^ e) := by
  rcases hk.lt_or_eq with hlt | rfl
  · exact representable_of_lt hlt he (by omega)
  · have hdouble : ((2 ^ 53 : ℕ) : ℝ) * 2 ^ e = (2 ^ 52 : ℕ) * 2 ^ (e + 1) := by
      rw [zpow_add_one₀ two_ne_zero]
      push_cast
      ring
    rw [hdouble]
    exact representable_of_lt (by decide) (by omega) (by omega)

theorem representable_natCast {n : ℕ} (hn : n ≤ 2 ^ 53) : Representable n := by
  simpa using representable_mul_zpow hn (by decide : (-1074 : ℤ) ≤ 0) (by decide)

theorem representable_intCast {n : ℤ} (hn : |n| ≤ 2 ^ 53) : Representable n := by
  obtain ⟨k, rfl | rfl⟩ := n.eq_nat_or_neg
  · rw [Nat.abs_cast] at hn
    rw [Int.cast_natCast]
    exact representable_natCast (by exact_mod_cast hn)
  · rw [abs_neg, Nat.abs_cast] at hn
    rw [Int.cast_neg, Int.cast_natCast]
    exact (representable_natCast (by exact_mod_cast hn)).neg

/-- Machine numbers are below all numbers of a larger exponent. -/
theorem Representable.abs_lt (hc : Representable c) {m : ℕ} {e : ℤ} (h : Canonical m e)
    (he : 971 < e) : |c| < m * 2 ^ e := by
  obtain ⟨m', e', hcanonical, he', habs⟩ := hc
  rw [habs]
  exact mul_zpow_lt hcanonical h (he'.trans_lt he)

theorem Representable.exists_smallest_units (hc : Representable c) :
    ∃ k : ℤ, c = k * 2 ^ (-1074 : ℤ) := by
  obtain ⟨m, e, hcanonical, -, habs⟩ := hc
  have hunits : |c| = ((m * 2 ^ (e + 1074).toNat : ℕ) : ℤ) * 2 ^ (-1074 : ℤ) := by
    have he := hcanonical.le
    rw [habs, Int.cast_natCast, Nat.cast_mul, Nat.cast_pow, Nat.cast_two, mul_assoc, ← zpow_natCast,
      ← zpow_add₀ two_ne_zero]
    congr 2
    omega
  rcases abs_choice c with hc | hc
  · exact ⟨_, hc ▸ hunits⟩
  · refine ⟨-((m * 2 ^ (e + 1074).toNat : ℕ) : ℤ), ?_⟩
    rw [Int.cast_neg, neg_mul, ← hunits, hc, neg_neg]

/-- Different machine numbers are not nearer to each other than the smallest positive one to zero.
-/
theorem Representable.le_sub (ha : Representable a) (hc : Representable c) (hac : a < c) :
    (2 : ℝ) ^ (-1074 : ℤ) ≤ c - a := by
  obtain ⟨k, rfl⟩ := ha.exists_smallest_units
  obtain ⟨l, rfl⟩ := hc.exists_smallest_units
  have hpos : (0 : ℝ) < 2 ^ (-1074 : ℤ) := by positivity
  have hkl : k + 1 ≤ l := by
    rw [mul_lt_mul_iff_left₀ hpos] at hac
    exact_mod_cast hac
  have hunits : ((k + 1 : ℤ) : ℝ) * 2 ^ (-1074 : ℤ) ≤ l * 2 ^ (-1074 : ℤ) :=
    mul_le_mul_of_nonneg_right (by exact_mod_cast hkl) hpos.le
  push_cast at hunits
  linarith

/-- A machine number that is not small has a significand of full length. -/
theorem Representable.exists_units (ha : Representable a) (hone : 1 ≤ a) :
    ∃ (m : ℕ) (e : ℤ), a = m * 2 ^ e ∧ 2 ^ 52 ≤ m ∧ m < 2 ^ 53 ∧ -52 ≤ e ∧ e ≤ 971 := by
  obtain ⟨m, e, hcanonical, he, habs⟩ := ha
  rw [abs_of_nonneg (by linarith)] at habs
  have hlow : -52 ≤ e := by
    by_contra hlt
    have hsmall := hcanonical.mul_zpow_lt_two_pow (t := -53) (by omega)
    rw [habs] at hone
    norm_num at hsmall
    linarith
  exact ⟨m, e, habs, hcanonical.full.resolve_right (by omega), hcanonical.lt, hlow, he⟩

/-- From some size on machine numbers have no fraction. -/
theorem Representable.floor_eq (ha : Representable a) (hlarge : 2 ^ 52 ≤ |a|) :
    (⌊a⌋ : ℝ) = a := by
  obtain ⟨m, e, hcanonical, -, habs⟩ := ha
  have he : 0 ≤ e := by
    by_contra hneg
    have hsmall := hcanonical.mul_zpow_lt_two_pow (t := -1) (by omega)
    rw [habs] at hlarge
    norm_num at hsmall hlarge
    linarith
  obtain ⟨k, rfl⟩ := Int.eq_ofNat_of_zero_le he
  have hunits : (m : ℝ) * 2 ^ (k : ℤ) = ((m * 2 ^ k : ℕ) : ℤ) := by push_cast; simp
  rw [hunits] at habs
  rcases abs_choice a with ha | ha
  · rw [← ha, habs, Int.floor_intCast]
  · rw [show a = ((-(m * 2 ^ k : ℕ) : ℤ) : ℝ) by rw [Int.cast_neg, ← habs, ha, neg_neg],
      Int.floor_intCast]

/-- A number is a whole number of units or is below all numbers of their exponent. -/
theorem Floating.eq_mul_zpow_or_lt (hc : Floating c) (hnonneg : 0 ≤ c) {m : ℕ} {e : ℤ}
    (h : Canonical m e) : (∃ n : ℕ, c = n * 2 ^ e) ∨ c < m * 2 ^ e := by
  obtain ⟨m', e', hcanonical, habs⟩ := hc
  rw [abs_of_nonneg hnonneg] at habs
  rcases le_or_gt e e' with he | he
  · refine .inl ⟨m' * 2 ^ (e' - e).toNat, ?_⟩
    rw [habs, Nat.cast_mul, Nat.cast_pow, Nat.cast_two, mul_assoc, ← zpow_natCast,
      ← zpow_add₀ two_ne_zero]
    congr 2
    omega
  · rw [habs]
    exact .inr (mul_zpow_lt hcanonical h he)

end Units

section Faithful

theorem Faithful.refl (a : ℝ) : Faithful a a where
  le _ _ h := h
  ge _ _ h := h
  near c _ := by
    rw [sub_self, abs_zero]
    exact abs_nonneg _

theorem Faithful.neg {a b : ℝ} (h : Faithful a b) : Faithful (-a) (-b) where
  le c hc hca := le_neg.2 (h.ge (-c) hc.neg (le_neg.1 hca))
  ge c hc hac := neg_le.2 (h.le (-c) hc.neg (neg_le.1 hac))
  near c hc := by
    have hnear := h.near (-c) hc.neg
    rwa [← abs_neg, ← abs_neg (a - -c), neg_sub', neg_sub', neg_neg] at hnear

/-- Two real numbers that are rounded keep their order. -/
theorem Faithful.le_of_lt {a a' b b' : ℝ} (h : Faithful a b) (h' : Faithful a' b')
    (hb : Floating b) (hb' : Floating b') (hlt : a < a') : b ≤ b' := by
  by_contra hgt
  rw [not_le] at hgt
  -- otherwise the one number has been rounded up and the other one down, beyond each other
  have hup : a' < b := by
    by_contra hle
    exact not_le.2 hgt (h'.le b hb (not_lt.1 hle))
  have hdown : b' < a := by
    by_contra hle
    exact not_le.2 hgt (h.ge b' hb' (not_lt.1 hle))
  have hnear := h.near b' hb'
  have hnear' := h'.near b hb
  rw [abs_of_neg (sub_neg.2 (hlt.trans hup)), abs_of_pos (sub_pos.2 hdown)] at hnear
  rw [abs_of_pos (sub_pos.2 (hdown.trans hlt)), abs_of_neg (sub_neg.2 hup)] at hnear'
  linarith

theorem cast_apply (s : Sign) (n : ℕ) : ((s.apply n : ℤ) : ℝ) = (s.apply 1 : ℤ) * n := by
  cases s <;> simp [apply_negative, apply_positive]

/-- Both may be given the same sign. -/
theorem Faithful.apply {a b : ℝ} (s : Sign) (h : Faithful a b) :
    Faithful ((s.apply 1 : ℤ) * a) ((s.apply 1 : ℤ) * b) := by
  cases s with
  | negative => simpa [apply_negative] using h.neg
  | positive => simpa [apply_positive] using h

end Faithful

end Machine

end Seeing
