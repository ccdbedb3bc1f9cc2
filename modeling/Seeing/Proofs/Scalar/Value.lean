import Seeing.Proofs.Real
import Seeing.Proofs.Scalar.Equality

/-!
# Machine numbers as real numbers

A machine number stands for a real number, or for an infinity: `Machine.value`. Its significand and
its exponent are in a normal form, `Canonical`, where the exponents decide first which of two
numbers is larger. So the order of the machine numbers is that of their values,
`le_iff_value_le`.

Packing keeps the value, unless the exponent is too large. Then it gives an infinity,
`value_pack_of_lt`.
-/

open Float.Model
open Float.Model.UnpackedFloat

namespace Seeing

namespace Machine

/-- What a kind stands for. -/
noncomputable def valueOf : UnpackedFloat → EReal
  | .infinity .negative => ⊥
  | .infinity .positive => ⊤
  | .notANumber => 0
  | .zero _ => 0
  | .finite s m e _ => (((s.apply m : ℤ) : ℝ) * 2 ^ e : ℝ)

/-- What a machine number stands for. -/
noncomputable def value (x : Float) : EReal := valueOf x.toModel.unpack

/-- The significand has its full length, unless the exponent is the smallest one. -/
structure Canonical (m : ℕ) (e : ℤ) : Prop where
  lt : m < 2 ^ 53
  le : -1074 ≤ e
  full : 2 ^ 52 ≤ m ∨ e = -1074

/-- The kind is in normal form. -/
def CanonicalKind : UnpackedFloat → Prop
  | .finite _ m e _ => Canonical m e
  | _ => True

section Fields

theorem canonical_of_unpack {b : BitVec Format.binary64.numBits} {s : Sign} {m : ℕ} {e : ℤ}
    {hm : 0 < m} (hb : UnpackedFloat.unpack Format.binary64 b = .finite s m e hm) :
    Canonical m e ∧ e ≤ 971 := by
  have hmantissa : (unpackMantissa b).toNat < 2 ^ 52 := (unpackMantissa b).isLt
  have hbias : (Format.binary64.exponentBias : ℤ) +
      (Format.binary64.mantissaBitsWithoutImplicit : ℤ) = 1075 := rfl
  rw [UnpackedFloat.unpack] at hb
  split_ifs at hb with hlargest _ hsmallest hzero
  · obtain ⟨rfl, rfl, rfl⟩ := UnpackedFloat.finite.inj hb
    rw [hsmallest, hbias]
    exact ⟨⟨by omega, by decide, .inr rfl⟩, by decide⟩
  · obtain ⟨rfl, rfl, rfl⟩ := UnpackedFloat.finite.inj hb
    have hlt : (unpackExponent b).toNat < 2048 := (unpackExponent b).isLt
    have hne : (unpackExponent b).toNat ≠ 2047 := fun h =>
      hlargest (BitVec.eq_of_toNat_eq h)
    have hpos : (unpackExponent b).toNat ≠ 0 := fun h =>
      hsmallest (BitVec.eq_of_toNat_eq h)
    rw [hbias, toNat_one_append]
    exact ⟨⟨by omega, by omega, .inl (by omega)⟩, by omega⟩

theorem canonicalKind_unpack (x : Float) : CanonicalKind x.toModel.unpack := by
  cases hx : x.toModel.unpack with
  | finite s m e hm => exact (canonical_of_unpack hx).1
  | _ => trivial

end Fields

section Pack

variable (s : Sign) {m : ℕ} {e : ℤ} (hm : 0 < m)

theorem pack_finite : UnpackedFloat.pack Format.binary64 (.finite s m e hm) =
    if 2 ^ 11 ≤ (e + 1075).toNat + 1 then packedInfinity Format.binary64 s
    else if m.log2 + 1 = 53 then
      packComponents Format.binary64 s (BitVec.ofNat 11 (e + 1075).toNat) (BitVec.ofNat 52 m)
    else packComponents Format.binary64 s 0#11 (BitVec.ofNat 52 m) := by
  have hbias : (e + Format.binary64.exponentBias +
      Format.binary64.mantissaBitsWithoutImplicit).toNat = (e + 1075).toNat := by
    congr 1
    rw [add_assoc]
    rfl
  rw [UnpackedFloat.pack]
  simp only [hbias]
  rfl

/-- A significand of full length is packed without its leading one. -/
theorem pack_of_normal (hlow : 2 ^ 52 ≤ m) (hhigh : m < 2 ^ 53) (he : e ≤ 971) :
    UnpackedFloat.pack Format.binary64 (.finite s m e hm) =
      packComponents Format.binary64 s (BitVec.ofNat 11 (e + 1075).toNat) (BitVec.ofNat 52 m) := by
  have hlog : m.log2 = 52 := (Nat.log2_eq_iff hm.ne').2 ⟨hlow, hhigh⟩
  rw [pack_finite, if_neg (by omega), if_pos (by omega)]

theorem pack_of_subnormal (hhigh : m < 2 ^ 52) :
    UnpackedFloat.pack Format.binary64 (.finite s m (-1074) hm) =
      packComponents Format.binary64 s 0#11 (BitVec.ofNat 52 m) := by
  have hlog : m.log2 < 52 := (Nat.log2_lt hm.ne').2 hhigh
  rw [pack_finite, if_neg (by omega), if_neg (by omega)]

theorem unpack_pack_of_normal (hlow : 2 ^ 52 ≤ m) (hhigh : m < 2 ^ 53) (he : -1074 ≤ e)
    (he' : e ≤ 971) : (Float.Model.pack (.finite s m e hm)).unpack = .finite s m e hm := by
  have hfield : (BitVec.ofNat 11 (e + 1075).toNat).toNat = (e + 1075).toNat := by
    rw [BitVec.toNat_ofNat, Nat.mod_eq_of_lt (by omega)]
  have hzero : BitVec.ofNat 11 (e + 1075).toNat ≠ 0#11 := by
    intro heq
    rw [heq] at hfield
    change 0 = (e + 1075).toNat at hfield
    omega
  rw [unpack_pack, pack_of_normal s hm hlow hhigh he', UnpackedFloat.unpack]
  simp only [unpackExponent_packComponents, unpackMantissa_packComponents,
    unpackSign_packComponents, Sign.ofBitVec_toBitVec]
  rw [if_neg (ofNat_ne_largest (by omega)), if_neg hzero]
  congr 1
  · refine (toNat_one_append _).trans ?_
    rw [BitVec.toNat_ofNat]
    omega
  · have hbias : ((BitVec.ofNat 11 (e + 1075).toNat).toNat : ℤ) = e + 1075 := by
      rw [hfield, Int.toNat_of_nonneg (by omega)]
    exact (congrArg (· - (1075 : ℤ)) hbias).trans (by omega)

theorem unpack_pack_of_subnormal (hhigh : m < 2 ^ 52) :
    (Float.Model.pack (.finite s m (-1074) hm)).unpack = .finite s m (-1074) hm := by
  have hmantissa : (BitVec.ofNat 52 m).toNat = m := by
    rw [BitVec.toNat_ofNat, Nat.mod_eq_of_lt (by omega)]
  have hzero : BitVec.ofNat 52 m ≠ 0#52 := by
    intro heq
    rw [heq] at hmantissa
    exact hm.ne hmantissa
  rw [unpack_pack, pack_of_subnormal s hm hhigh, UnpackedFloat.unpack]
  simp only [unpackExponent_packComponents, unpackMantissa_packComponents,
    unpackSign_packComponents, Sign.ofBitVec_toBitVec]
  rw [if_neg (by decide), if_pos trivial, dif_neg hzero]
  congr 1

/-- Packing keeps the fields of a normal form. -/
theorem unpack_pack_of_canonical (hcanonical : Canonical m e) (he : e ≤ 971) :
    (Float.Model.pack (.finite s m e hm)).unpack = .finite s m e hm := by
  rcases le_or_gt (2 ^ 52) m with hlow | hhigh
  · exact unpack_pack_of_normal s hm hlow hcanonical.lt hcanonical.le he
  · obtain rfl : e = -1074 := hcanonical.full.resolve_left (not_le.2 hhigh)
    exact unpack_pack_of_subnormal s hm hhigh

/-- An exponent that is too large is packed as an infinity. -/
theorem unpack_pack_of_lt (he : 971 < e) :
    (Float.Model.pack (.finite s m e hm)).unpack = .infinity s := by
  rw [unpack_pack, pack_finite, if_pos (by omega)]
  cases s <;> rfl

theorem unpack_pack_infinity : (Float.Model.pack (.infinity s)).unpack = .infinity s := by
  rw [unpack_pack, UnpackedFloat.pack]
  cases s <;> rfl

end Pack

section Order

theorem apply_negative (n : ℤ) : Sign.negative.apply n = -n := rfl

theorem apply_positive (n : ℤ) : Sign.positive.apply n = n := rfl

theorem Canonical.mul_zpow_lt_two_pow {m : ℕ} {e t : ℤ} (h : Canonical m e) (he : e ≤ t) :
    (m : ℝ) * 2 ^ e < 2 ^ 53 * 2 ^ t :=
  mul_lt_mul (by exact_mod_cast h.lt) (zpow_le_zpow_right₀ one_le_two he) (by positivity)
    (by positivity)

theorem mul_zpow_lt {m m' : ℕ} {e e' : ℤ} (h : Canonical m e) (h' : Canonical m' e')
    (he : e < e') : (m : ℝ) * 2 ^ e < m' * 2 ^ e' := by
  have hfull : 2 ^ 52 ≤ m' := h'.full.resolve_right (by have := h.le; omega)
  have hm' : (2 : ℝ) ^ 52 ≤ m' := by exact_mod_cast hfull
  calc (m : ℝ) * 2 ^ e < 2 ^ 53 * 2 ^ (e' - 1) := h.mul_zpow_lt_two_pow (by omega)
    _ = 2 ^ 52 * 2 ^ e' := by rw [zpow_sub_one₀ two_ne_zero]; ring
    _ ≤ m' * 2 ^ e' := mul_le_mul_of_nonneg_right hm' (by positivity)

/-- Of two numbers in normal form the one with the larger exponent is larger. -/
theorem then_compare_eq {m m' : ℕ} {e e' : ℤ} (h : Canonical m e) (h' : Canonical m' e') :
    (compare e e').then (compare m m') = compare ((m : ℝ) * 2 ^ e) (m' * 2 ^ e') := by
  rcases lt_trichotomy e e' with he | rfl | he
  · rw [compare_lt_iff_lt.2 he, compare_lt_iff_lt.2 (mul_zpow_lt h h' he)]
    rfl
  · have hpos : (0 : ℝ) < 2 ^ e := by positivity
    rw [compare_eq_iff_eq.2 rfl]
    change compare m m' = _
    rcases lt_trichotomy m m' with hm | rfl | hm
    · rw [compare_lt_iff_lt.2 hm, compare_lt_iff_lt.2]
      exact mul_lt_mul_of_pos_right (by exact_mod_cast hm) hpos
    · rw [compare_eq_iff_eq.2 rfl, compare_eq_iff_eq.2 rfl]
    · rw [compare_gt_iff_gt.2 hm, compare_gt_iff_gt.2]
      exact mul_lt_mul_of_pos_right (by exact_mod_cast hm) hpos
  · rw [compare_gt_iff_gt.2 he, compare_gt_iff_gt.2 (mul_zpow_lt h' h he)]
    rfl

theorem compare_coe (a b : ℝ) : compare (a : EReal) b = compare a b := by
  rw [← cmp_eq_compare, ← cmp_eq_compare, EReal.coe_strictMono.cmp_map_eq]

theorem compare_neg_neg (a b : ℝ) : compare (-a) (-b) = (compare a b).swap := by
  rw [← cmp_eq_compare, ← cmp_eq_compare, cmp_swap, StrictAnti.cmp_map_eq fun _ _ => neg_lt_neg]

theorem valueOf_negative {m : ℕ} {e : ℤ} (hm : 0 < m) :
    valueOf (.finite .negative m e hm) = ((-(m * 2 ^ e) : ℝ) : EReal) := by
  rw [valueOf, apply_negative, Int.cast_neg, Int.cast_natCast, neg_mul]

theorem valueOf_positive {m : ℕ} {e : ℤ} (hm : 0 < m) :
    valueOf (.finite .positive m e hm) = ((m * 2 ^ e : ℝ) : EReal) := by
  rw [valueOf, apply_positive, Int.cast_natCast]

theorem valueOf_negative_lt_zero {m : ℕ} {e : ℤ} (hm : 0 < m) :
    valueOf (.finite .negative m e hm) < 0 := by
  rw [valueOf_negative, EReal.coe_neg', neg_lt_zero]
  have : (0 : ℝ) < m := by exact_mod_cast hm
  positivity

theorem zero_lt_valueOf_positive {m : ℕ} {e : ℤ} (hm : 0 < m) :
    0 < valueOf (.finite .positive m e hm) := by
  rw [valueOf_positive, EReal.coe_pos]
  have : (0 : ℝ) < m := by exact_mod_cast hm
  positivity

theorem compare_finite {s s' : Sign} {m m' : ℕ} {e e' : ℤ} (hm : 0 < m) (hm' : 0 < m')
    (h : Canonical m e) (h' : Canonical m' e') :
    (UnpackedFloat.finite s m e hm).compare (.finite s' m' e' hm') =
      some (compare (valueOf (.finite s m e hm)) (valueOf (.finite s' m' e' hm'))) := by
  cases s with
  | negative =>
      cases s' with
      | negative =>
          rw [valueOf_negative, valueOf_negative, compare_coe, compare_neg_neg,
            ← then_compare_eq h h']
          rfl
      | positive =>
          rw [compare_lt_iff_lt.2
            ((valueOf_negative_lt_zero hm).trans (zero_lt_valueOf_positive hm'))]
          rfl
  | positive =>
      cases s' with
      | negative =>
          rw [compare_gt_iff_gt.2
            ((valueOf_negative_lt_zero hm').trans (zero_lt_valueOf_positive hm))]
          rfl
      | positive =>
          rw [valueOf_positive, valueOf_positive, compare_coe, ← then_compare_eq h h']
          rfl

/-- An infinity is beyond what has a finite size. -/
theorem compare_infinity (s : Sign) {f : UnpackedFloat} (hf : f.isFinite = true) :
    (UnpackedFloat.infinity s).compare f = some (compare (valueOf (.infinity s)) (valueOf f)) ∧
      f.compare (.infinity s) = some (compare (valueOf f) (valueOf (.infinity s))) := by
  obtain ⟨a, ha⟩ : ∃ a : ℝ, valueOf f = a := by
    cases f with
    | infinity s' => cases hf
    | notANumber => cases hf
    | zero s' => exact ⟨0, rfl⟩
    | finite s' m e hm => exact ⟨_, rfl⟩
  rw [ha]
  cases s with
  | negative =>
      rw [valueOf, compare_lt_iff_lt.2 (EReal.bot_lt_coe a),
        compare_gt_iff_gt.2 (EReal.bot_lt_coe a)]
      cases f <;> first | exact ⟨rfl, rfl⟩ | cases hf
  | positive =>
      rw [valueOf, compare_gt_iff_gt.2 (EReal.coe_lt_top a),
        compare_lt_iff_lt.2 (EReal.coe_lt_top a)]
      cases f <;> first | exact ⟨rfl, rfl⟩ | cases hf

theorem compare_infinity_infinity (s s' : Sign) :
    (UnpackedFloat.infinity s).compare (.infinity s') =
      some (compare (valueOf (.infinity s)) (valueOf (.infinity s'))) := by
  cases s with
  | negative =>
      cases s' with
      | negative => rw [compare_eq_iff_eq.2 rfl]; rfl
      | positive => rw [valueOf, valueOf, compare_lt_iff_lt.2 bot_lt_top]; rfl
  | positive =>
      cases s' with
      | negative => rw [valueOf, valueOf, compare_gt_iff_gt.2 bot_lt_top]; rfl
      | positive => rw [compare_eq_iff_eq.2 rfl]; rfl

/-- Zero is between the numbers of either sign. -/
theorem compare_zero (s s' : Sign) {m : ℕ} {e : ℤ} (hm : 0 < m) :
    (UnpackedFloat.zero s).compare (.finite s' m e hm) =
        some (compare (valueOf (.zero s)) (valueOf (.finite s' m e hm))) ∧
      (UnpackedFloat.finite s' m e hm).compare (.zero s) =
        some (compare (valueOf (.finite s' m e hm)) (valueOf (.zero s))) := by
  rw [show valueOf (.zero s) = 0 from rfl]
  cases s' with
  | negative =>
      rw [compare_gt_iff_gt.2 (valueOf_negative_lt_zero hm),
        compare_lt_iff_lt.2 (valueOf_negative_lt_zero hm)]
      exact ⟨rfl, rfl⟩
  | positive =>
      rw [compare_lt_iff_lt.2 (zero_lt_valueOf_positive hm),
        compare_gt_iff_gt.2 (zero_lt_valueOf_positive hm)]
      exact ⟨rfl, rfl⟩

/-- The kinds of numbers compare as their values do. -/
theorem compare_eq {f g : UnpackedFloat} (hf : f.isNaN = false) (hg : g.isNaN = false)
    (hf' : CanonicalKind f) (hg' : CanonicalKind g) :
    f.compare g = some (compare (valueOf f) (valueOf g)) := by
  cases f with
  | notANumber => cases hf
  | infinity s =>
      cases g with
      | notANumber => cases hg
      | infinity s' => exact compare_infinity_infinity s s'
      | _ => exact (compare_infinity s rfl).1
  | zero s =>
      cases g with
      | notANumber => cases hg
      | infinity s' => exact (compare_infinity s' rfl).2
      | zero s' => rw [show valueOf (.zero s) = valueOf (.zero s') from rfl,
          compare_eq_iff_eq.2 rfl]; rfl
      | finite s' m e hm => exact (compare_zero s s' hm).1
  | finite s m e hm =>
      cases g with
      | notANumber => cases hg
      | infinity s' => exact (compare_infinity s' rfl).2
      | zero s' => exact (compare_zero s' s hm).2
      | finite s' m' e' hm' => exact compare_finite hm hm' hf' hg'

variable {x y : Float} (hx : x.isNaN = false) (hy : y.isNaN = false)

include hx hy in
/-- The order of machine numbers is that of their values. -/
theorem le_iff_value_le : x ≤ y ↔ value x ≤ value y := by
  rw [le_iff, UnpackedFloat.le,
    compare_eq hx hy (canonicalKind_unpack x) (canonicalKind_unpack y), Option.any_some,
    Ordering.isLE_iff_ne_gt]
  exact compare_le_iff_le

include hx hy in
theorem lt_iff_value_lt : x < y ↔ value x < value y := by
  rw [lt_iff, UnpackedFloat.lt,
    compare_eq hx hy (canonicalKind_unpack x) (canonicalKind_unpack y), beq_iff_eq,
    Option.some_inj, compare_lt_iff_lt]
  rfl

include hx hy in
theorem beq_iff_value_eq : (x == y) = true ↔ value x = value y := by
  change (x.toModel.unpack.compare y.toModel.unpack == some .eq) = true ↔ _
  rw [beq_iff_eq, compare_eq hx hy (canonicalKind_unpack x) (canonicalKind_unpack y),
    Option.some_inj, compare_eq_iff_eq]
  rfl

theorem not_lt_self (x : Float) : ¬x < x := by
  cases hx : x.isNaN with
  | true => exact not_lt_of_isNaN_left hx x
  | false =>
      rw [lt_iff_value_lt hx hx]
      exact lt_irrefl _

include hx hy in
theorem le_or_le : x ≤ y ∨ y ≤ x := by
  rw [le_iff_value_le hx hy, le_iff_value_le hy hx]
  exact le_total _ _

theorem le_self_iff : x ≤ x ↔ x.isNaN = false := by
  constructor
  · intro hle
    by_contra hx
    exact not_le_of_isNaN_left (by simpa using hx) x hle
  · intro hx
    exact (le_iff_value_le hx hx).2 le_rfl

end Order

section Infinity

variable {x : Float} {s : Sign}

theorem isInf_iff : x.isInf = true ↔ ∃ s, x.toModel.unpack = .infinity s := by
  rw [Float.isInf, Float.Model.isInf]
  cases x.toModel.unpack with
  | infinity s => exact ⟨fun _ => ⟨s, rfl⟩, fun _ => rfl⟩
  | _ =>
      constructor
      · intro h
        cases h
      · rintro ⟨s, h⟩
        cases h

theorem value_infinity_cases (hx : x.toModel.unpack = .infinity s) :
    value x = ⊥ ∨ value x = ⊤ := by
  rw [value, hx]
  cases s with
  | negative => exact .inl rfl
  | positive => exact .inr rfl

end Infinity

end Machine

end Seeing
