import Seeing.Proofs.Scalar.Representable

/-!
# Rounding of significands

The significand of a result is carried with what has been cut off from it, `Describes`. Each shift
keeps this, `Describes.shiftRightOne`, and what is left at the end is rounded up or down to the
nearer unit, `Describes.faithful`. So the operations on kinds of finite size round the results of
the operations on real numbers, `RoundsKind`: `roundsKind_div`, `roundsKind_add`, `roundsKind_mul`.
-/

open Float.Model
open Float.Model.UnpackedFloat

namespace Seeing

namespace Machine

section Shift

/-- The significand is the real number at the exponent, cut off at the unit, and its accuracy tells
whether anything is cut off, and how it compares with half of a unit. -/
structure Describes (em : ExtendedMantissa) (e : ℤ) (a : ℝ) : Prop where
  le : em.mantissa * 2 ^ e ≤ a
  lt : a < (em.mantissa + 1) * 2 ^ e
  exact_iff : em.accuracy = .exact ↔ a = em.mantissa * 2 ^ e
  half : ∀ o, em.accuracy = .inexact o → compare (2 * a) ((2 * em.mantissa + 1) * 2 ^ e) = o

variable {em : ExtendedMantissa} {m : ℕ} {e : ℤ} {a : ℝ} {accuracy : Accuracy}

theorem mantissa_repeat_shiftRightOne (em : ExtendedMantissa) (k : ℕ) :
    (k.repeat ExtendedMantissa.shiftRightOne em).mantissa = em.mantissa / 2 ^ k := by
  induction k with
  | zero => simp [Nat.repeat]
  | succ k ih =>
      rw [Nat.repeat, ExtendedMantissa.shiftRightOne, ih, Nat.div_div_eq_div_mul, pow_succ]

theorem mantissa_ofMantissaAndAccuracy (m : ℕ) (accuracy : Accuracy) :
    (ExtendedMantissa.ofMantissaAndAccuracy m accuracy).mantissa = m := by
  cases accuracy with
  | exact => rfl
  | inexact o => cases o <;> rfl

theorem accuracy_ofMantissaAndAccuracy (m : ℕ) (accuracy : Accuracy) :
    (ExtendedMantissa.ofMantissaAndAccuracy m accuracy).accuracy = accuracy := by
  cases accuracy with
  | exact => rfl
  | inexact o => cases o <;> rfl

theorem describes_exact (m : ℕ) (e : ℤ) :
    Describes (ExtendedMantissa.ofMantissaAndAccuracy m .exact) e (m * 2 ^ e) where
  le := le_rfl
  lt := mul_lt_mul_of_pos_right (lt_add_one _) (by positivity)
  exact_iff := ⟨fun _ => rfl, fun _ => rfl⟩
  half := by
    intro o ho
    cases ho

theorem accuracy_eq_exact_iff (em : ExtendedMantissa) :
    em.accuracy = .exact ↔ em.roundBit = false ∧ em.stickyBit = false := by
  obtain ⟨m, r, s⟩ := em
  cases r <;> cases s <;> simp [ExtendedMantissa.accuracy]

theorem accuracy_shiftRightOne_eq_exact_iff :
    em.shiftRightOne.accuracy = .exact ↔ em.mantissa % 2 = 0 ∧ em.accuracy = .exact := by
  rw [accuracy_eq_exact_iff, accuracy_eq_exact_iff]
  simp [ExtendedMantissa.shiftRightOne]

/-- What is cut off by a shift is more than half of a unit if the bit that is shifted out is set and
there was something cut off before. -/
theorem accuracy_shiftRightOne_cases {o : Ordering}
    (ho : em.shiftRightOne.accuracy = .inexact o) :
    em.mantissa % 2 = 0 ∧ o = .lt ∨
      em.mantissa % 2 = 1 ∧
        (em.accuracy = .exact ∧ o = .eq ∨ em.accuracy ≠ .exact ∧ o = .gt) := by
  obtain ⟨m, r, s⟩ := em
  rcases Nat.mod_two_eq_zero_or_one m with hm | hm <;> cases r <;> cases s <;>
    simp_all [ExtendedMantissa.shiftRightOne, ExtendedMantissa.accuracy]

theorem Describes.shiftRightOne (h : Describes em e a) : Describes em.shiftRightOne (e + 1) a := by
  have hpos : (0 : ℝ) < 2 ^ e := by positivity
  have hpow : (2 : ℝ) ^ (e + 1) = 2 * 2 ^ e := by rw [zpow_add₀ two_ne_zero]; ring
  have hdiv : em.mantissa = 2 * (em.mantissa / 2) + em.mantissa % 2 := by omega
  have hmod : em.mantissa % 2 < 2 := Nat.mod_lt _ two_pos
  have hcast : (em.mantissa : ℝ) = 2 * (em.mantissa / 2 : ℕ) + (em.mantissa % 2 : ℕ) := by
    exact_mod_cast hdiv
  have hmod' : ((em.mantissa % 2 : ℕ) : ℝ) ≤ 1 := by exact_mod_cast Nat.le_of_lt_succ hmod
  have hle := h.le
  have hlt := h.lt
  refine ⟨?_, ?_, ?_, ?_⟩
  · rw [hpow]
    change ((em.mantissa / 2 : ℕ) : ℝ) * _ ≤ a
    nlinarith [(em.mantissa % 2).cast_nonneg (α := ℝ)]
  · rw [hpow]
    change a < (((em.mantissa / 2 : ℕ) : ℝ) + 1) * _
    nlinarith
  · rw [accuracy_shiftRightOne_eq_exact_iff, h.exact_iff, hpow]
    change _ ↔ a = ((em.mantissa / 2 : ℕ) : ℝ) * _
    constructor
    · rintro ⟨hzero, rfl⟩
      rw [hcast, hzero]
      push_cast
      ring
    · intro ha
      -- nothing is cut off, so the bit that is shifted out is zero
      have hzero : em.mantissa % 2 = 0 := by
        by_contra hne
        have hone : em.mantissa % 2 = 1 := by omega
        rw [ha, hcast, hone] at hle
        push_cast at hle
        linarith
      refine ⟨hzero, ?_⟩
      rw [ha, hcast, hzero]
      push_cast
      ring
  · intro o ho
    rw [hpow]
    change compare _ ((2 * ((em.mantissa / 2 : ℕ) : ℝ) + 1) * _) = o
    rcases accuracy_shiftRightOne_cases ho with
      ⟨hbit, rfl⟩ | ⟨hbit, ⟨hexact, rfl⟩ | ⟨hinexact, rfl⟩⟩ <;> rw [hbit] at hcast <;>
      push_cast at hcast
    · rw [compare_lt_iff_lt]
      nlinarith
    · rw [compare_eq_iff_eq, h.exact_iff.1 hexact, hcast]
      ring
    · have hne : a ≠ em.mantissa * 2 ^ e := fun ha => hinexact (h.exact_iff.2 ha)
      have hlt := lt_of_le_of_ne hle hne.symm
      rw [compare_gt_iff_gt]
      nlinarith

theorem Describes.repeat (h : Describes em e a) (k : ℕ) :
    Describes (k.repeat ExtendedMantissa.shiftRightOne em) (e + k) a := by
  induction k with
  | zero => simpa [Nat.repeat] using h
  | succ k ih =>
      rw [Nat.repeat, Nat.cast_succ, ← add_assoc]
      exact ih.shiftRightOne

/-- The rounded significand goes down unless half of a unit is cut off, and up unless less is. -/
theorem roundedMantissa_cases (em : ExtendedMantissa) :
    em.roundedMantissa = em.mantissa ∧ em.accuracy ≠ .inexact .gt ∨
      em.roundedMantissa = em.mantissa + 1 ∧
        (em.accuracy = .inexact .eq ∨ em.accuracy = .inexact .gt) := by
  rw [ExtendedMantissa.roundedMantissa]
  cases em.accuracy with
  | exact => exact .inl ⟨rfl, by simp⟩
  | inexact o =>
      cases o with
      | lt => exact .inl ⟨rfl, by simp⟩
      | eq =>
          rcases Nat.mod_two_eq_zero_or_one em.mantissa with hbit | hbit
          · exact .inl ⟨congrArg (em.mantissa + ·) hbit, by simp⟩
          · exact .inr ⟨congrArg (em.mantissa + ·) hbit, .inl rfl⟩
      | gt => exact .inr ⟨rfl, .inr rfl⟩

theorem le_roundedMantissa (em : ExtendedMantissa) :
    em.mantissa ≤ em.roundedMantissa ∧ em.roundedMantissa ≤ em.mantissa + 1 := by
  rcases roundedMantissa_cases em with ⟨hround, -⟩ | ⟨hround, -⟩ <;> omega

/-- No number lies between a significand in normal form and the next one. -/
theorem Canonical.le_or_le (hcanonical : Canonical m e) {c : ℝ} (hc : Floating c) :
    c ≤ m * 2 ^ e ∨ (m + 1) * 2 ^ e ≤ c := by
  rcases lt_or_ge c 0 with hneg | hnonneg
  · exact .inl (hneg.le.trans (by positivity))
  · rcases hc.eq_mul_zpow_or_lt hnonneg hcanonical with ⟨n, rfl⟩ | hlt
    · rcases le_or_gt n m with hle | hlt
      · exact .inl (mul_le_mul_of_nonneg_right (by exact_mod_cast hle) (by positivity))
      · exact .inr (mul_le_mul_of_nonneg_right (by exact_mod_cast hlt) (by positivity))
    · exact .inl hlt.le

/-- A significand in normal form is rounded to one of the two machine numbers next to the real
number, and to the nearer one. -/
theorem Describes.faithful (h : Describes em e a) (hcanonical : Canonical em.mantissa e) :
    Faithful a (em.roundedMantissa * 2 ^ e) := by
  have hle := h.le
  have hlt := h.lt
  rcases roundedMantissa_cases em with ⟨hround, haccuracy⟩ | ⟨hround, haccuracy⟩ <;> rw [hround]
  · -- rounded down: at most half of a unit is cut off
    have hhalf : 2 * a ≤ (2 * em.mantissa + 1) * 2 ^ e := by
      cases hem : em.accuracy with
      | exact =>
          rw [h.exact_iff.1 hem]
          have : (0 : ℝ) < 2 ^ e := by positivity
          linarith
      | inexact o =>
          rw [← compare_le_iff_le, h.half o hem]
          rintro rfl
          exact haccuracy hem
    constructor
    · intro c hc hca
      rcases hcanonical.le_or_le hc with hlow | hhigh <;> linarith
    · exact fun c _ hac => hle.trans hac
    · intro c hc
      rw [abs_of_nonneg (sub_nonneg.2 hle)]
      rcases hcanonical.le_or_le hc with hlow | hhigh
      · rw [abs_of_nonneg (by linarith)]
        linarith
      · rw [abs_of_nonpos (by linarith)]
        linarith
  · have hhalf : (2 * em.mantissa + 1) * 2 ^ e ≤ 2 * a := by
      rcases haccuracy with hem | hem
      · exact (compare_eq_iff_eq.1 (h.half _ hem)).ge
      · exact (compare_gt_iff_gt.1 (h.half _ hem)).le
    have hinexact : em.mantissa * 2 ^ e < a := by
      refine lt_of_le_of_ne hle fun heq => ?_
      rw [h.exact_iff.2 heq.symm] at haccuracy
      simp at haccuracy
    push_cast
    constructor
    · exact fun c _ hca => hca.trans hlt.le
    · intro c hc hac
      rcases hcanonical.le_or_le hc with hlow | hhigh <;> linarith
    · intro c hc
      rw [abs_of_nonpos (by linarith)]
      rcases hcanonical.le_or_le hc with hlow | hhigh
      · rw [abs_of_nonneg (by linarith)]
        linarith
      · rw [abs_of_nonpos (by linarith)]
        linarith

end Shift

/-- The real number that a kind of finite size stands for. -/
inductive DenotesKind : UnpackedFloat → ℝ → Prop where
  | zero (s : Sign) : DenotesKind (.zero s) 0
  | finite (s : Sign) (m : ℕ) (e : ℤ) (hm : 0 < m) :
      DenotesKind (.finite s m e hm) ((s.apply m : ℤ) * 2 ^ e)

/-- A kind of finite size in normal form that is the real number, rounded up or down. -/
structure RoundsKind (a : ℝ) (f : UnpackedFloat) : Prop where
  canonical : CanonicalKind f
  faithful : ∃ b, DenotesKind f b ∧ Faithful a b

section Round

variable {m : ℕ} {e : ℤ} {a : ℝ} {accuracy : Accuracy}

theorem upperBits {m : ℕ} (hm : 52 ≤ m.log2) :
    2 ^ 52 ≤ m / 2 ^ (m.log2 - 52) ∧ m / 2 ^ (m.log2 - 52) < 2 ^ 53 := by
  have hne : m ≠ 0 := by
    rintro rfl
    simp at hm
  have hlow := Nat.log2_self_le hne
  have hhigh := Nat.lt_log2_self (n := m)
  constructor
  · rw [Nat.le_div_iff_mul_le (by positivity), ← pow_add]
    rwa [show 52 + (m.log2 - 52) = m.log2 by omega]
  · rw [Nat.div_lt_iff_lt_mul (by positivity), ← pow_add]
    rwa [show 53 + (m.log2 - 52) = m.log2 + 1 by omega]

theorem log2_shiftLeft {n k : ℕ} (hn : n ≠ 0) : (n <<< k).log2 = n.log2 + k := by
  rw [Nat.shiftLeft_eq, Nat.log2_eq_iff (by positivity)]
  obtain ⟨hlow, hhigh⟩ := (Nat.log2_eq_iff hn).1 rfl
  constructor
  · rw [pow_add]
    exact Nat.mul_le_mul_right _ hlow
  · rw [show n.log2 + k + 1 = n.log2 + 1 + k by omega, pow_add]
    exact Nat.mul_lt_mul_of_pos_right hhigh (by positivity)

theorem targetExponent_eq (m : ℕ) (e : ℤ) :
    Format.binary64.targetExponent (totalExponent m e) = max (m.log2 - 52 + e) (-1074) := by
  change max ((m.log2 : ℤ) + 1 + e - 53) (-1074) = _
  congr 1
  omega

/-- A significand that is long enough is shifted to its normal form. -/
theorem shiftToTargetExponent_spec
    (h : Describes (ExtendedMantissa.ofMantissaAndAccuracy m accuracy) e a)
    (hlong : 52 ≤ m.log2 ∨ e ≤ -1074) :
    Describes (shiftToTargetExponent Format.binary64 m e accuracy).1
        (shiftToTargetExponent Format.binary64 m e accuracy).2 a ∧
      Canonical (shiftToTargetExponent Format.binary64 m e accuracy).1.mantissa
        (shiftToTargetExponent Format.binary64 m e accuracy).2 := by
  have htarget := targetExponent_eq m e
  generalize hk : (max ((m.log2 : ℤ) - 52 + e) (-1074) - e).toNat = k at *
  have hshifted := h.repeat k
  simp only [shiftToTargetExponent, shiftToExponent, htarget, hk]
  refine ⟨hshifted, ?_⟩
  change Canonical (k.repeat ExtendedMantissa.shiftRightOne
    (ExtendedMantissa.ofMantissaAndAccuracy m accuracy)).mantissa (e + k)
  rw [mantissa_repeat_shiftRightOne, mantissa_ofMantissaAndAccuracy]
  have hlt : m < 2 ^ (53 + k) := by
    refine Nat.lt_log2_self.trans_le (Nat.pow_le_pow_right two_pos ?_)
    omega
  refine ⟨?_, by omega, ?_⟩
  · rw [Nat.div_lt_iff_lt_mul (by positivity), ← pow_add]
    exact hlt
  · by_cases hlog : (m.log2 : ℤ) - 52 + e ≤ -1074
    · right
      omega
    · left
      have hlog' : 52 ≤ m.log2 := by omega
      have hk : k = m.log2 - 52 := by omega
      rw [hk]
      exact (upperBits hlog').1

/-- The last shift is by one bit at most, where rounding has made the significand longer, and drops
nothing. -/
theorem shiftToTargetExponent_exact (hm : m ≤ 2 ^ 53) (he : -1074 ≤ e)
    (hfull : 2 ^ 52 ≤ m ∨ e = -1074) :
    Canonical (shiftToTargetExponent Format.binary64 m e .exact).1.mantissa
        (shiftToTargetExponent Format.binary64 m e .exact).2 ∧
      ((shiftToTargetExponent Format.binary64 m e .exact).1.mantissa : ℝ) *
        2 ^ (shiftToTargetExponent Format.binary64 m e .exact).2 = m * 2 ^ e := by
  have hlong : 52 ≤ m.log2 ∨ e ≤ -1074 := by
    rcases hfull with hfull | rfl
    · exact .inl ((Nat.le_log2 (by omega)).2 hfull)
    · exact .inr le_rfl
  refine ⟨(shiftToTargetExponent_spec (describes_exact m e) hlong).2, ?_⟩
  have htarget := targetExponent_eq m e
  simp only [shiftToTargetExponent, shiftToExponent, htarget]
  change (((max ((m.log2 : ℤ) - 52 + e) (-1074) - e).toNat.repeat
    ExtendedMantissa.shiftRightOne (ExtendedMantissa.ofMantissaAndAccuracy m
      .exact)).mantissa : ℝ) * _ = _
  rw [mantissa_repeat_shiftRightOne, mantissa_ofMantissaAndAccuracy]
  rcases hm.lt_or_eq with hlt | rfl
  · have hlog : m.log2 < 53 := by
      rcases m.eq_zero_or_pos with rfl | hpos
      · decide
      · exact (Nat.log2_lt hpos.ne').2 hlt
    have hzero : (max ((m.log2 : ℤ) - 52 + e) (-1074) - e).toNat = 0 := by omega
    rw [hzero, pow_zero, Nat.div_one, Nat.cast_zero, add_zero]
  · have hone : (max (((2 ^ 53 : ℕ).log2 : ℤ) - 52 + e) (-1074) - e).toNat = 1 := by
      rw [Nat.log2_two_pow]
      omega
    rw [hone, zpow_add₀ two_ne_zero]
    norm_num
    ring

theorem roundWithAccuracy_rounds (s : Sign)
    (h : Describes (ExtendedMantissa.ofMantissaAndAccuracy m accuracy) e a)
    (hlong : 52 ≤ m.log2 ∨ e ≤ -1074) :
    RoundsKind ((s.apply 1 : ℤ) * a) (roundWithAccuracy Format.binary64 s m e accuracy) := by
  obtain ⟨hdescribes, hcanonical⟩ := shiftToTargetExponent_spec h hlong
  rw [roundWithAccuracy]
  generalize shiftToTargetExponent Format.binary64 m e accuracy = shifted at *
  obtain ⟨em, e₁⟩ := shifted
  obtain ⟨hle, hle'⟩ := le_roundedMantissa em
  have hm : em.roundedMantissa ≤ 2 ^ 53 := hle'.trans hcanonical.lt
  have hfull : 2 ^ 52 ≤ em.roundedMantissa ∨ e₁ = -1074 :=
    hcanonical.full.imp_left hle.trans'
  obtain ⟨hcanonical', hvalue⟩ := shiftToTargetExponent_exact hm hcanonical.le hfull
  have hfaithful := (hdescribes.faithful hcanonical).apply s
  rw [← hvalue] at hfaithful
  simp only
  split_ifs with hzero
  · refine ⟨trivial, 0, .zero s, ?_⟩
    simpa [hzero] using hfaithful
  · refine ⟨hcanonical', _, .finite _ _ _ _, ?_⟩
    rwa [cast_apply, mul_assoc]

/-- A significand that is too short is made longer first. -/
theorem round_rounds (s : Sign) (hm : 0 < m) (e : ℤ) :
    RoundsKind ((s.apply 1 : ℤ) * (m * 2 ^ e)) (UnpackedFloat.round Format.binary64 s m e) := by
  have htarget := targetExponent_eq m e
  generalize hk : (e - max ((m.log2 : ℤ) - 52 + e) (-1074)).toNat = k
  have hvalue : (m : ℝ) * 2 ^ e = (m <<< k : ℕ) * 2 ^ (e - k) := by
    rw [Nat.shiftLeft_eq, Nat.cast_mul, Nat.cast_pow, Nat.cast_two, mul_assoc, ← zpow_natCast,
      ← zpow_add₀ two_ne_zero]
    congr 2
    omega
  simp only [UnpackedFloat.round, decreaseExponent, htarget, hk]
  rw [hvalue]
  refine roundWithAccuracy_rounds s (describes_exact _ _) ?_
  rw [log2_shiftLeft hm.ne']
  omega

theorem normalize_rounds (n : ℤ) (e : ℤ) (s : Sign) :
    RoundsKind (n * 2 ^ e) (UnpackedFloat.normalize Format.binary64 n e s) := by
  rw [UnpackedFloat.normalize]
  rcases lt_trichotomy n 0 with hn | rfl | hn
  · rw [compare_lt_iff_lt.2 hn]
    obtain ⟨k, hk⟩ := Int.eq_ofNat_of_zero_le (neg_nonneg.2 hn.le)
    obtain rfl : n = -k := by omega
    have hround := round_rounds .negative (m := k) (by omega) e
    simpa [apply_negative] using hround
  · rw [compare_eq_iff_eq.2 rfl]
    refine ⟨trivial, 0, .zero s, ?_⟩
    simpa using Faithful.refl 0
  · rw [compare_gt_iff_gt.2 hn]
    obtain ⟨k, rfl⟩ := Int.eq_ofNat_of_zero_le hn.le
    have hround := round_rounds .positive (m := k) (by omega) e
    simpa [apply_positive] using hround

end Round

section Division

variable {f g : UnpackedFloat} {a b : ℝ}

/-- A quotient is cut off at the unit, and the remainder tells what is cut off. -/
theorem describes_div (n : ℕ) {m : ℕ} (hm : 0 < m) (e : ℤ) :
    Describes (ExtendedMantissa.ofMantissaAndAccuracy (n / m) (accuracyOfFraction (n % m) m)) e
      (n / m * 2 ^ e) := by
  have hpos : (0 : ℝ) < 2 ^ e := by positivity
  have hm' : (0 : ℝ) < m := by exact_mod_cast hm
  have hdiv : (n : ℝ) = m * (n / m : ℕ) + (n % m : ℕ) := by
    exact_mod_cast (Nat.div_add_mod n m).symm
  refine ⟨?_, ?_, ?_, ?_⟩ <;> rw [mantissa_ofMantissaAndAccuracy]
  · exact mul_le_mul_of_nonneg_right Nat.cast_div_le hpos.le
  · refine mul_lt_mul_of_pos_right ?_ hpos
    rw [div_lt_iff₀ hm', mul_comm]
    exact_mod_cast Nat.lt_mul_div_succ n hm
  · rw [accuracy_ofMantissaAndAccuracy, accuracyOfFraction, mul_left_inj' hpos.ne',
      div_eq_iff hm'.ne', hdiv, mul_comm (m : ℝ), add_eq_left, Nat.cast_eq_zero]
    split_ifs with hzero
    · simp [hzero]
    · simp [hzero]
  · intro o ho
    rw [accuracy_ofMantissaAndAccuracy, accuracyOfFraction] at ho
    split_ifs at ho with hzero
    obtain rfl := Accuracy.inexact.inj ho
    have hquotient : (n : ℝ) / m = (n / m : ℕ) + (n % m : ℕ) / m := by
      rw [div_eq_iff hm'.ne', add_mul, div_mul_cancel₀ _ hm'.ne', mul_comm _ (m : ℝ)]
      exact hdiv
    rw [hquotient, ← mul_assoc]
    rcases lt_trichotomy (2 * (n % m)) m with hlt | heq | hgt
    · have hpart : 2 * ((n % m : ℕ) / m : ℝ) < 1 := by
        rw [← mul_div_assoc, div_lt_one hm']
        exact_mod_cast hlt
      rw [compare_lt_iff_lt.2 hlt, compare_lt_iff_lt]
      exact mul_lt_mul_of_pos_right (by linarith) hpos
    · have hpart : 2 * ((n % m : ℕ) / m : ℝ) = 1 := by
        rw [← mul_div_assoc, div_eq_one_iff_eq hm'.ne']
        exact_mod_cast heq
      rw [compare_eq_iff_eq.2 heq, compare_eq_iff_eq, mul_add, hpart]
    · have hpart : 1 < 2 * ((n % m : ℕ) / m : ℝ) := by
        rw [← mul_div_assoc, one_lt_div hm']
        exact_mod_cast hgt
      rw [compare_gt_iff_gt.2 hgt, compare_gt_iff_gt]
      exact mul_lt_mul_of_pos_right (by linarith) hpos

theorem divCore_describes {m₁ m₂ : ℕ} (hm₁ : 0 < m₁) (hm₂ : 0 < m₂) (e₁ e₂ : ℤ) :
    Describes
        (ExtendedMantissa.ofMantissaAndAccuracy (divCore Format.binary64 m₁ e₁ m₂ e₂).1
          (divCore Format.binary64 m₁ e₁ m₂ e₂).2.2)
        (divCore Format.binary64 m₁ e₁ m₂ e₂).2.1 (m₁ * 2 ^ e₁ / (m₂ * 2 ^ e₂)) ∧
      (52 ≤ (divCore Format.binary64 m₁ e₁ m₂ e₂).1.log2 ∨
        (divCore Format.binary64 m₁ e₁ m₂ e₂).2.1 ≤ -1074) := by
  have htarget : Format.binary64.targetExponent (totalExponent m₁ e₁ - totalExponent m₂ e₂) =
      max ((m₁.log2 : ℤ) - m₂.log2 + (e₁ - e₂) - 53) (-1074) := by
    change max ((m₁.log2 : ℤ) + 1 + e₁ - (m₂.log2 + 1 + e₂) - 53) (-1074) = _
    congr 1
    omega
  simp only [divCore, htarget]
  generalize ht : min (e₁ - e₂) (max ((m₁.log2 : ℤ) - m₂.log2 + (e₁ - e₂) - 53) (-1074)) = t
  generalize hk : (e₁ - e₂ - t).toNat = k
  have hvalue : (m₁ : ℝ) * 2 ^ e₁ / (m₂ * 2 ^ e₂) = (m₁ <<< k : ℕ) / m₂ * 2 ^ t := by
    rw [Nat.shiftLeft_eq, Nat.cast_mul, Nat.cast_pow, Nat.cast_two, mul_div_mul_comm,
      ← zpow_sub₀ two_ne_zero, mul_div_right_comm, mul_assoc, ← zpow_natCast,
      ← zpow_add₀ two_ne_zero]
    congr 2
    omega
  rw [hvalue]
  refine ⟨describes_div _ hm₂ t, ?_⟩
  by_cases hlow : t ≤ -1074
  · exact .inr hlow
  · left
    -- the dividend has been made longer than the divisor by fifty three bits
    have hlong : 53 + m₂.log2 ≤ m₁.log2 + k := by omega
    have hdividend : 2 ^ (m₁.log2 + k) ≤ m₁ <<< k := by
      rw [← log2_shiftLeft hm₁.ne']
      exact Nat.log2_self_le (by simp [Nat.shiftLeft_eq, hm₁.ne'])
    have hquotient : 2 ^ 52 ≤ m₁ <<< k / m₂ := by
      rw [Nat.le_div_iff_mul_le hm₂]
      calc 2 ^ 52 * m₂ ≤ 2 ^ 52 * 2 ^ (m₂.log2 + 1) := Nat.mul_le_mul_left _ Nat.lt_log2_self.le
        _ = 2 ^ (53 + m₂.log2) := by rw [← pow_add]; congr 1; omega
        _ ≤ m₁ <<< k := (Nat.pow_le_pow_right two_pos hlong).trans hdividend
    exact (Nat.le_log2 (by omega)).2 hquotient

theorem apply_div (s s' : Sign) : (s / s').apply 1 = s.apply 1 * s'.apply 1 := by
  cases s <;> cases s' <;> rfl

theorem roundsKind_div (hf : DenotesKind f a) (hg : DenotesKind g b) (hb : b ≠ 0) :
    RoundsKind (a / b) (UnpackedFloat.div Format.binary64 f g) := by
  cases hg with
  | zero s => exact absurd rfl hb
  | finite s₂ m₂ e₂ hm₂ =>
      cases hf with
      | zero s => exact ⟨trivial, 0, .zero _, by simpa using Faithful.refl 0⟩
      | finite s₁ m₁ e₁ hm₁ =>
          obtain ⟨hdescribes, hlong⟩ := divCore_describes hm₁ hm₂ e₁ e₂
          have hround := roundWithAccuracy_rounds (s₁ / s₂) hdescribes hlong
          have hsign : ((s₁.apply m₁ : ℤ) * 2 ^ e₁ / ((s₂.apply m₂ : ℤ) * 2 ^ e₂) : ℝ) =
              ((s₁ / s₂).apply 1 : ℤ) * (m₁ * 2 ^ e₁ / (m₂ * 2 ^ e₂)) := by
            rw [apply_div]
            cases s₁ <;> cases s₂ <;> simp [apply_negative, apply_positive, neg_div, div_neg]
          rw [hsign]
          exact hround

theorem roundsKind_div_infinity (hf : DenotesKind f a) (s : Sign) :
    RoundsKind 0 (UnpackedFloat.div Format.binary64 f (.infinity s)) := by
  cases hf with
  | zero s' => exact ⟨trivial, 0, .zero _, .refl 0⟩
  | finite s' m e hm => exact ⟨trivial, 0, .zero _, .refl 0⟩

end Division

section Sums

variable {f g : UnpackedFloat} {a b : ℝ}

theorem apply_decreaseExponent (s : Sign) (m : ℕ) {e t : ℤ} (ht : t ≤ e) :
    ((s.apply (decreaseExponent m e t).1 : ℤ) : ℝ) * 2 ^ t = (s.apply m : ℤ) * 2 ^ e := by
  simp only [decreaseExponent]
  rw [cast_apply, cast_apply s m, Nat.shiftLeft_eq, Nat.cast_mul, Nat.cast_pow, Nat.cast_two,
    mul_assoc, mul_assoc, mul_assoc, ← zpow_natCast, ← zpow_add₀ two_ne_zero]
  congr 3
  omega

theorem roundsKind_add (hf : DenotesKind f a) (hg : DenotesKind g b) (hf' : CanonicalKind f)
    (hg' : CanonicalKind g) : RoundsKind (a + b) (UnpackedFloat.add Format.binary64 f g) := by
  cases hf with
  | zero s =>
      rw [zero_add]
      cases hg with
      | zero s' =>
          cases s <;> cases s' <;> exact ⟨trivial, 0, .zero _, Faithful.refl 0⟩
      | finite s' m e hm => exact ⟨hg', _, .finite s' m e hm, Faithful.refl _⟩
  | finite s m e hm =>
      cases hg with
      | zero s' =>
          rw [add_zero]
          exact ⟨hf', _, .finite s m e hm, Faithful.refl _⟩
      | finite s' m' e' hm' =>
          rw [← apply_decreaseExponent s m (min_le_left e e'),
            ← apply_decreaseExponent s' m' (min_le_right e e'), ← add_mul, ← Int.cast_add]
          exact normalize_rounds _ _ _

theorem apply_neg (s : Sign) (n : ℤ) : (-s).apply n = -s.apply n := by
  cases s with
  | negative => exact (neg_neg n).symm
  | positive => rfl

theorem DenotesKind.neg (h : DenotesKind f a) : DenotesKind f.neg (-a) := by
  cases h with
  | zero s =>
      rw [neg_zero]
      exact .zero (-s)
  | finite s m e hm =>
      rw [← neg_mul, ← Int.cast_neg, ← apply_neg]
      exact .finite (-s) m e hm

theorem CanonicalKind.neg (h : CanonicalKind f) : CanonicalKind f.neg := by
  cases f <;> exact h

theorem sub_eq_add_neg_kind (f g : UnpackedFloat) :
    UnpackedFloat.sub Format.binary64 f g = UnpackedFloat.add Format.binary64 f g.neg := by
  cases f with
  | finite s m e hm =>
      cases g with
      | finite s' m' e' hm' =>
          have hsum := fun n n' : ℤ => (sub_eq_add_neg (s.apply n) (s'.apply n')).trans
            (congrArg (s.apply n + ·) (apply_neg s' n').symm)
          exact congrArg (UnpackedFloat.normalize Format.binary64 · _ _) (hsum _ _)
      | _ => rfl
  | _ => cases g <;> rfl

end Sums

section Products

variable {f g : UnpackedFloat} {a b : ℝ}

theorem apply_mul (s s' : Sign) : (s * s').apply 1 = s.apply 1 * s'.apply 1 := by
  cases s <;> cases s' <;> rfl

theorem roundsKind_mul (hf : DenotesKind f a) (hg : DenotesKind g b) (hf' : CanonicalKind f)
    (hg' : CanonicalKind g) : RoundsKind (a * b) (UnpackedFloat.mul Format.binary64 f g) := by
  cases hf with
  | zero s =>
      rw [zero_mul]
      cases hg with
      | zero s' => exact ⟨trivial, 0, .zero _, Faithful.refl 0⟩
      | finite s' m e hm => exact ⟨trivial, 0, .zero _, Faithful.refl 0⟩
  | finite s m e hm =>
      cases hg with
      | zero s' =>
          rw [mul_zero]
          exact ⟨trivial, 0, .zero _, Faithful.refl 0⟩
      | finite s' m' e' hm' =>
          have hlong : 52 ≤ (m * m').log2 ∨ e + e' ≤ -1074 := by
            rw [Nat.le_log2 (Nat.mul_pos hm hm').ne']
            rcases hf'.full with hm₁ | he
            · exact .inl (hm₁.trans (Nat.le_mul_of_pos_right m hm'))
            · rcases hg'.full with hm₂ | he'
              · exact .inl (hm₂.trans (Nat.le_mul_of_pos_left m' hm))
              · right
                omega
          have hround := roundWithAccuracy_rounds (s * s') (describes_exact (m * m') (e + e')) hlong
          have hsign : ((s.apply m : ℤ) * 2 ^ e * ((s'.apply m' : ℤ) * 2 ^ e') : ℝ) =
              ((s * s').apply 1 : ℤ) * ((m * m' : ℕ) * 2 ^ (e + e')) := by
            rw [apply_mul, cast_apply, cast_apply s', zpow_add₀ two_ne_zero]
            push_cast
            ring
          rw [hsign]
          exact hround

theorem DenotesKind.abs (h : DenotesKind f a) : DenotesKind f.abs |a| := by
  cases h with
  | zero s =>
      rw [abs_zero]
      exact .zero .positive
  | finite s m e hm =>
      have habs : |((s.apply m : ℤ) * 2 ^ e : ℝ)| = (Sign.positive.apply m : ℤ) * 2 ^ e := by
        rw [abs_mul, abs_of_pos (by positivity : (0 : ℝ) < 2 ^ e)]
        cases s <;> simp [apply_negative, apply_positive]
      rw [habs]
      exact .finite .positive m e hm

theorem CanonicalKind.abs (h : CanonicalKind f) : CanonicalKind f.abs := by
  cases f <;> exact h

end Products

end Machine

end Seeing
