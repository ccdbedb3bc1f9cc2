import Seeing.Proofs.Scalar.Arithmetic

/-!
# Whole parts of machine numbers

The largest whole number not above a machine number is a machine number, and `floor` gives it:
`Denotes.floor`. It counts the units toward zero, `Denotes.truncate`, and goes down by one if it has
come out above the number. Numbers that are too large to have a fraction and what is no number are
left as they are, `floor_eq_self`.
-/

open Float.Model
open Float.Model.UnpackedFloat

namespace Seeing

namespace Machine

variable {x : Float} {a : ℝ}

section Constants

theorem denotes_zero : Denotes 0 0 := DenotesKind.zero .positive

theorem denotes_one : Denotes 1 1 := by
  have hkind := DenotesKind.finite .positive (2 ^ 52) (-52) (by decide)
  norm_num [apply_positive] at hkind
  exact hkind

theorem denotes_half : Denotes Scalar.half (1 / 2) := by
  have hkind := DenotesKind.finite .positive (2 ^ 52) (-53) (by decide)
  norm_num [apply_positive] at hkind
  exact hkind

theorem denotes_wholeFrom : Denotes wholeFrom (2 ^ 52) := by
  have hkind := DenotesKind.finite .positive (2 ^ 52) 0 (by decide)
  norm_num [apply_positive] at hkind ⊢
  exact hkind

theorem denotes_thousandth : Denotes 0.001 (4611686018427388 * 2 ^ (-62 : ℤ)) := by
  have hkind := DenotesKind.finite .positive 4611686018427388 (-62) (by decide)
  rw [apply_positive] at hkind
  exact hkind

/-- A count is rounded also where it is read as a numeral. -/
theorem rounds_float_ofNat (n : ℕ) : Rounds n (Float.ofNat n) := by
  rcases lt_or_ge n (2 ^ 53) with hn | hn
  · have hnumeral : Float.ofNat n = n.toUInt64.toFloat * 1 := by
      rw [Float.ofNat]
      change Float.ofScientific n false 0 = _
      rw [Float.ofScientific, dif_pos ⟨hn, by decide⟩]
      rfl
    have hround := rounds_ofNat n
    rw [ofNat, if_pos (by simpa using hn)] at hround
    have hproduct := rounds_mul (hround.denotes (representable_natCast hn.le)) denotes_one
    rwa [mul_one, ← hnumeral] at hproduct
  · have hround := rounds_ofNat n
    rwa [ofNat, if_neg (by simpa using hn)] at hround

end Constants

section Counting

theorem toNat_roundToInt_positive (m : ℕ) (e : ℤ) :
    (roundToInt .positive m e).toNat = ⌊(m : ℝ) * 2 ^ e⌋₊ := by
  simp only [roundToInt, decreaseExponent, shiftToExponent, apply_positive, Int.toNat_natCast]
  change (Nat.repeat ExtendedMantissa.shiftRightOne _
    (ExtendedMantissa.ofMantissaAndAccuracy _ _)).mantissa = _
  rw [mantissa_repeat_shiftRightOne, mantissa_ofMantissaAndAccuracy]
  obtain ⟨k, rfl | rfl⟩ := e.eq_nat_or_neg
  · have hvalue : (m : ℝ) * 2 ^ (k : ℤ) = (m <<< k : ℕ) := by
      rw [Nat.shiftLeft_eq, zpow_natCast]
      push_cast
      rfl
    rw [hvalue, Nat.floor_natCast]
    simp
  · have hvalue : (m : ℝ) * 2 ^ (-k : ℤ) = m / (2 ^ k : ℕ) := by
      rw [zpow_neg, zpow_natCast, ← div_eq_mul_inv]
      push_cast
      rfl
    rw [hvalue, Nat.floor_div_eq_div]
    simp

theorem DenotesKind.toNat_toInt {f : UnpackedFloat} (h : DenotesKind f a) (low high : ℤ) :
    (f.toInt low high).toNat = ⌊a⌋₊ := by
  cases h with
  | zero s => simp [UnpackedFloat.toInt]
  | finite s m e hm =>
      cases s with
      | negative =>
          have hnonpos : (Sign.negative.apply m : ℤ) * (2 : ℝ) ^ e ≤ 0 := by
            rw [apply_negative, Int.cast_neg, Int.cast_natCast, neg_mul, neg_nonpos]
            positivity
          rw [Nat.floor_of_nonpos hnonpos, UnpackedFloat.toInt, Int.toNat_eq_zero]
          simp [roundToInt, apply_negative]
      | positive =>
          rw [apply_positive, Int.cast_natCast]
          exact toNat_roundToInt_positive m e

/-- The count is the whole part, limited to sixty four bits. -/
theorem Denotes.toNat (h : Denotes x a) : toNat x = min ⌊a⌋₊ (2 ^ 64 - 1) := by
  have hclamp : ∀ n : ℕ, (UInt64.ofNatClamp n).toNat = min n (2 ^ 64 - 1) := by
    intro n
    rw [UInt64.ofNatClamp]
    split_ifs with hn
    · exact (min_eq_left (Nat.le_sub_one_of_lt hn)).symm
    · exact (min_eq_right ((Nat.sub_le _ _).trans (not_lt.1 hn))).symm
  exact (hclamp _).trans (congrArg (min · _) (DenotesKind.toNat_toInt h _ _))

theorem toNat_of_isNaN (hx : x.isNaN = true) : Machine.toNat x = 0 := by
  have hkind : x.toModel.unpack = .notANumber := eq_notANumber hx
  change (UInt64.ofNatClamp (x.toModel.unpack.toInt 0 (UInt64.size - 1)).toNat).toNat = 0
  rw [hkind]
  rfl

theorem rounds_toFloat (n : UInt64) : Rounds n.toNat n.toFloat := by
  have hround := normalize_rounds n.toNat 0 .positive
  rw [zpow_zero, mul_one, Int.cast_natCast] at hround
  exact hround.rounds rfl

end Counting

section Floor

/-- The units are counted toward zero. -/
theorem Denotes.truncate (h : Denotes x a) (hsmall : |a| < 2 ^ 52) :
    Denotes (truncate x) (if a < 0 then ⌈a⌉ else ⌊a⌋ : ℤ) := by
  have hfloor : ⌊|a|⌋₊ < 2 ^ 52 := (Nat.floor_lt (abs_nonneg a)).2 (by exact_mod_cast hsmall)
  have hcount : x.abs.toUInt64.toNat = ⌊|a|⌋₊ :=
    h.abs.toNat.trans (min_eq_left (by omega))
  have hwhole : Denotes x.abs.toUInt64.toFloat ⌊|a|⌋₊ := by
    have hround := rounds_toFloat x.abs.toUInt64
    rw [hcount] at hround
    exact hround.denotes (representable_natCast (by omega))
  simp only [Machine.truncate, if_pos ((h.abs.lt_iff denotes_wholeFrom).2 hsmall),
    h.lt_iff denotes_zero]
  split_ifs with ha
  · rw [← neg_neg a, Int.ceil_neg, Int.cast_neg, ← natCast_floor_eq_intCast_floor
      (neg_nonneg.2 ha.le), ← abs_of_neg ha]
    exact hwhole.neg
  · rw [← natCast_floor_eq_intCast_floor (not_lt.1 ha)]
    rwa [abs_of_nonneg (not_lt.1 ha)] at hwhole

theorem floor_eq_self (hx : ¬x.abs < wholeFrom) : floor x = x := by
  simp only [Machine.floor, Machine.truncate, if_neg hx, if_neg (not_lt_self x), ite_self]

theorem Denotes.floor_of_lt (h : Denotes x a) (hsmall : |a| < 2 ^ 52) :
    Denotes (Machine.floor x) ⌊a⌋ := by
  have htruncate := h.truncate hsmall
  generalize hw : (if a < 0 then ⌈a⌉ else ⌊a⌋ : ℤ) = w at htruncate
  have hbounds : (w : ℝ) - 1 < a ∧ a < w + 1 := by
    rw [← hw]
    split_ifs
    · exact ⟨by linarith [Int.ceil_lt_add_one a], by linarith [Int.le_ceil a]⟩
    · exact ⟨by linarith [Int.floor_le a], Int.lt_floor_add_one a⟩
  simp only [Machine.floor]
  split_ifs with hlt hbeq
  · have hfloor : ⌊a⌋ = w - 1 := by
      rw [Int.floor_eq_iff, Int.cast_sub, Int.cast_one, sub_add_cancel]
      exact ⟨hbounds.1.le, (h.lt_iff htruncate).1 hlt⟩
    have hround := rounds_sub htruncate denotes_one
    rw [hfloor, Int.cast_sub, Int.cast_one]
    refine hround.denotes ?_
    have hsize : |(w : ℝ) - 1| ≤ 2 ^ 53 := by
      rw [abs_lt] at hsmall
      rw [abs_le]
      constructor <;> linarith
    exact_mod_cast representable_intCast (n := w - 1) (by exact_mod_cast hsize)
  · rw [← (htruncate.beq_iff h).1 hbeq, Int.floor_intCast, (htruncate.beq_iff h).1 hbeq]
    exact h
  · have hfloor : ⌊a⌋ = w := by
      rw [Int.floor_eq_iff]
      exact ⟨not_lt.1 fun hlt' => hlt ((h.lt_iff htruncate).2 hlt'), hbounds.2⟩
    rwa [hfloor]

/-- Rounding down gives the whole part. -/
theorem Denotes.floor (h : Denotes x a) : Denotes (floor x) ⌊a⌋ := by
  rcases lt_or_ge |a| (2 ^ 52) with hsmall | hlarge
  · exact h.floor_of_lt hsmall
  · have hx : ¬x.abs < wholeFrom := by
      rw [h.abs.lt_iff denotes_wholeFrom]
      exact not_lt.2 hlarge
    rw [floor_eq_self hx, h.representable.floor_eq hlarge]
    exact h

theorem unpack_abs (x : Float) :
    x.abs.toModel.unpack = (Float.Model.pack x.toModel.unpack.abs).unpack := rfl

theorem isNaN_abs (x : Float) : x.abs.isNaN = x.isNaN := by
  refine (isNaN_unpack_pack _).trans ?_
  rw [Float.isNaN, Float.Model.isNaN]
  cases x.toModel.unpack <;> rfl

theorem floor_of_isNaN (hx : x.isNaN = true) : Machine.floor x = x :=
  floor_eq_self (not_lt_of_isNaN_left ((isNaN_abs x).trans hx) _)

theorem floor_of_kind_infinity {s : Sign} (hx : x.toModel.unpack = .infinity s) :
    Machine.floor x = x := by
  have hkind : x.abs.toModel.unpack = .infinity .positive := by
    rw [unpack_abs, hx, UnpackedFloat.abs, unpack_pack, UnpackedFloat.pack]
    rfl
  have hnan : x.abs.isNaN = false := by rw [Float.isNaN, Float.Model.isNaN, hkind]; rfl
  apply floor_eq_self
  rw [lt_iff_value_lt hnan denotes_wholeFrom.isNaN, value, hkind]
  exact not_lt.2 le_top

theorem floor_lt_zero_iff (hx : x.isNaN = false) : Machine.floor x < 0 ↔ value x < 0 := by
  rcases denotes_or_infinity hx with ⟨a, ha⟩ | ⟨s, hkind⟩
  · rw [ha.floor.lt_iff denotes_zero, ha.value_eq, EReal.coe_neg', ← Int.cast_zero,
      Int.cast_lt, Int.floor_lt]
  · rw [floor_of_kind_infinity hkind, lt_iff_value_lt hx denotes_zero.isNaN,
      denotes_zero.value_eq, EReal.coe_zero]

/-- The machine number of a count is whole. -/
theorem exists_denotes_ofNat {n : ℕ} (hpos : 0 < n) (hn : n < 2 ^ 64) :
    ∃ k : ℤ, Denotes (ofNat n) k ∧ 1 ≤ k := by
  rcases le_or_gt n (2 ^ 53) with hsmall | hlarge
  · refine ⟨n, ?_, by exact_mod_cast hpos⟩
    rw [Int.cast_natCast]
    exact (rounds_ofNat n).denotes (representable_natCast hsmall)
  · obtain ⟨b, hb⟩ := exists_denotes_iff.2 (kind_ofNat hpos hn).1
    have hle : (2 ^ 53 : ℕ) ≤ b := by
      rw [← EReal.coe_le_coe_iff, ← hb.value_eq]
      exact (rounds_ofNat n).le _ (representable_natCast le_rfl) (by exact_mod_cast hlarge.le)
    push_cast at hle
    have habs : 2 ^ 52 ≤ |b| := by rw [abs_of_nonneg] <;> linarith
    refine ⟨⌊b⌋, ?_, Int.le_floor.2 ?_⟩
    · rwa [hb.representable.floor_eq habs]
    · push_cast
      linarith

theorem ofNat_le_floor_iff {n : ℕ} (hpos : 0 < n) (hn : n < 2 ^ 64) (hx : x.isNaN = false) :
    ofNat n ≤ Machine.floor x ↔ value (ofNat n) ≤ value x := by
  obtain ⟨k, hk, -⟩ := exists_denotes_ofNat hpos hn
  rcases denotes_or_infinity hx with ⟨a, ha⟩ | ⟨s, hkind⟩
  · rw [hk.le_iff ha.floor, ha.value_eq, hk.value_eq, EReal.coe_le_coe_iff, Int.cast_le,
      Int.le_floor]
  · rw [floor_of_kind_infinity hkind, le_iff_value_le hk.isNaN hx]

end Floor

end Machine

end Seeing
