import Mathlib
import Seeing.Scalar.Machine

/-!
# Machine numbers and what is no number

An operation on machine numbers unpacks them, works on the kind that each of them is, and
packs the result. Packing keeps what is no number apart, `isNaN_unpack_pack`, so the kinds
alone say when a product or a quotient is no number: `isNaN_mul`, `isNaN_div`. Nothing compares
with what is no number.
-/

open Float.Model
open Float.Model.UnpackedFloat

namespace Seeing

namespace Machine

/-- One of the two zeros. -/
def isZeroKind : UnpackedFloat → Bool
  | .zero _ => true
  | _ => false

/-- The machine number is one of the two zeros. -/
def isZero (x : Float) : Bool := isZeroKind x.toModel.unpack

section Pack

theorem unpack_pack (f : UnpackedFloat) : (Float.Model.pack f).unpack =
    UnpackedFloat.unpack Format.binary64 (UnpackedFloat.pack Format.binary64 f) := rfl

/-- Only the largest exponent is set apart for what is not finite. -/
theorem isFinite_unpack {b : BitVec Format.binary64.numBits}
    (hexponent : unpackExponent b ≠ -1#11) :
    (UnpackedFloat.unpack Format.binary64 b).isFinite = true := by
  rw [UnpackedFloat.unpack, if_neg hexponent]
  split_ifs <;> rfl

theorem isNaN_of_isFinite {f : UnpackedFloat} (hf : f.isFinite = true) : f.isNaN = false := by
  cases f with
  | infinity s => rfl
  | notANumber => cases hf
  | zero s => rfl
  | finite s m e hm => rfl

theorem ofNat_ne_largest {k : ℕ} (hk : k + 1 < 2 ^ 11) : BitVec.ofNat 11 k ≠ -1#11 := by
  intro heq
  have hvalue := congrArg BitVec.toNat heq
  rw [BitVec.toNat_ofNat, Nat.mod_eq_of_lt (by omega)] at hvalue
  change k = 2047 at hvalue
  omega

/-- What is packed is no number if and only if it was none before. -/
theorem isNaN_unpack_pack (f : UnpackedFloat) :
    (Float.Model.pack f).unpack.isNaN = f.isNaN := by
  cases f with
  | infinity s => cases s <;> rfl
  | notANumber => rfl
  | zero s => cases s <;> rfl
  | finite s m e hm =>
      rw [unpack_pack, UnpackedFloat.pack]
      split_ifs with hlarge hnormal
      · cases s <;> rfl
      · apply isNaN_of_isFinite
        apply isFinite_unpack
        rw [unpackExponent_packComponents]
        exact ofNat_ne_largest (not_le.1 hlarge)
      · apply isNaN_of_isFinite
        apply isFinite_unpack
        rw [unpackExponent_packComponents]
        decide

end Pack

section Operations

theorem isNaN_roundWithAccuracy (s : Sign) (m : ℕ) (e : ℤ) (accuracy : Accuracy) :
    (roundWithAccuracy Format.binary64 s m e accuracy).isNaN = false := by
  rw [roundWithAccuracy]
  dsimp only
  split_ifs <;> rfl

theorem isNaN_mul_kind (f g : UnpackedFloat) :
    (UnpackedFloat.mul Format.binary64 f g).isNaN =
      (f.isNaN || g.isNaN || f.isInf && isZeroKind g || isZeroKind f && g.isInf) := by
  cases f with
  | finite s m e hm =>
      cases g with
      | finite s' m' e' hm' => exact isNaN_roundWithAccuracy _ _ _ _
      | _ => rfl
  | _ => cases g <;> rfl

theorem isNaN_div_kind (f g : UnpackedFloat) :
    (UnpackedFloat.div Format.binary64 f g).isNaN =
      (f.isNaN || g.isNaN || f.isInf && g.isInf || isZeroKind f && isZeroKind g) := by
  cases f with
  | finite s m e hm =>
      cases g with
      | finite s' m' e' hm' => exact isNaN_roundWithAccuracy _ _ _ _
      | _ => rfl
  | _ => cases g <;> rfl

theorem isNaN_mul (x y : Float) :
    (x * y).isNaN = (x.isNaN || y.isNaN || x.isInf && isZero y || isZero x && y.isInf) :=
  (isNaN_unpack_pack _).trans (isNaN_mul_kind _ _)

theorem isNaN_div (x y : Float) :
    (x / y).isNaN = (x.isNaN || y.isNaN || x.isInf && y.isInf || isZero x && isZero y) :=
  (isNaN_unpack_pack _).trans (isNaN_div_kind _ _)

theorem eq_notANumber {f : UnpackedFloat} (hf : f.isNaN = true) : f = .notANumber := by
  cases f with
  | notANumber => rfl
  | _ => cases hf

theorem isNaN_add_of_isNaN {x : Float} (hx : x.isNaN = true) (y : Float) :
    (x + y).isNaN = true := by
  have hkind : x.toModel.unpack = .notANumber := by
    rw [Float.isNaN, Float.Model.isNaN] at hx
    cases hx' : x.toModel.unpack <;> rw [hx'] at hx <;> first | rfl | cases hx
  refine (isNaN_unpack_pack _).trans ?_
  rw [hkind]
  rfl

theorem isFinite_iff {x : Float} :
    x.isFinite = true ↔ x.isNaN = false ∧ x.isInf = false := by
  rw [Float.isFinite, Float.isNaN, Float.isInf, Float.Model.isFinite, Float.Model.isNaN,
    Float.Model.isInf]
  cases x.toModel.unpack <;> simp [UnpackedFloat.isFinite, UnpackedFloat.isNaN,
    UnpackedFloat.isInf]

end Operations

section Order

theorem le_iff (x y : Float) : x ≤ y ↔ x.toModel.unpack.le y.toModel.unpack = true := by
  change decide (x.toModel ≤ y.toModel) = true ↔ _
  rw [decide_eq_true_iff]
  rfl

theorem lt_iff (x y : Float) : x < y ↔ x.toModel.unpack.lt y.toModel.unpack = true := by
  change decide (x.toModel < y.toModel) = true ↔ _
  rw [decide_eq_true_iff]
  rfl

theorem compare_notANumber (f : UnpackedFloat) : f.compare .notANumber = none := by
  cases f with
  | infinity s => cases s <;> rfl
  | notANumber => rfl
  | zero s => rfl
  | finite s m e hm => cases s <;> rfl

theorem not_le_of_isNaN_left {x : Float} (hx : x.isNaN) (y : Float) : ¬x ≤ y := by
  have hkind : x.toModel.unpack = .notANumber := eq_notANumber hx
  rw [le_iff, UnpackedFloat.le, hkind]
  exact Bool.false_ne_true

theorem not_le_of_isNaN_right {y : Float} (hy : y.isNaN) (x : Float) : ¬x ≤ y := by
  have hkind : y.toModel.unpack = .notANumber := eq_notANumber hy
  rw [le_iff, UnpackedFloat.le, hkind, compare_notANumber]
  exact Bool.false_ne_true

theorem not_lt_of_isNaN_left {x : Float} (hx : x.isNaN = true) (y : Float) : ¬x < y := by
  have hkind : x.toModel.unpack = .notANumber := eq_notANumber hx
  rw [lt_iff, UnpackedFloat.lt, hkind]
  exact Bool.false_ne_true

theorem not_lt_of_isNaN_right {y : Float} (hy : y.isNaN = true) (x : Float) : ¬x < y := by
  have hkind : y.toModel.unpack = .notANumber := eq_notANumber hy
  rw [lt_iff, UnpackedFloat.lt, hkind, compare_notANumber]
  exact Bool.false_ne_true

end Order

end Machine

end Seeing
