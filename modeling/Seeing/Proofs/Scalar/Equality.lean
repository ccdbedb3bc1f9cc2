import Seeing.Proofs.Scalar.Machine

/-!
# Equal machine numbers

Machine numbers that compare as equal are the same, unless they are zeros: `eq_or_isZero_of_beq`.
The kind of a number tells its sign, its exponent and its significand, and these are all its bits.
There are two zeros, `eq_zero_of_isZero`.
-/

open Float.Model
open Float.Model.UnpackedFloat

namespace Seeing

namespace Machine

section Bits

variable {b : BitVec Format.binary64.numBits} {s : Sign}

theorem toBitVec_ofBitVec (b : BitVec 1) : (Sign.ofBitVec b).toBitVec = b := by
  revert b; decide

/-- A number is put together from its sign, its exponent and its significand. -/
theorem packComponents_unpack (b : BitVec Format.binary64.numBits) :
    packComponents Format.binary64 (Sign.ofBitVec (unpackSign b)) (unpackExponent b)
      (unpackMantissa b) = b := by
  simp only [packComponents, toBitVec_ofBitVec, unpackSign, unpackExponent, unpackMantissa,
    BitVec.extractLsb]
  ext i hi
  grind

theorem eq_packComponents {e : BitVec 11} {m : BitVec 52}
    (hsign : Sign.ofBitVec (unpackSign b) = s) (hexponent : unpackExponent b = e)
    (hmantissa : unpackMantissa b = m) : b = packComponents Format.binary64 s e m := by
  rw [← hsign, ← hexponent, ← hmantissa, packComponents_unpack]

theorem eq_packedInfinity (hb : UnpackedFloat.unpack Format.binary64 b = .infinity s) :
    b = packedInfinity Format.binary64 s := by
  rw [UnpackedFloat.unpack] at hb
  split_ifs at hb with hexponent hmantissa
  exact eq_packComponents (UnpackedFloat.infinity.inj hb) hexponent hmantissa

theorem eq_packedZero (hb : UnpackedFloat.unpack Format.binary64 b = .zero s) :
    b = packedZero Format.binary64 s := by
  rw [UnpackedFloat.unpack] at hb
  split_ifs at hb with _ _ hexponent hmantissa
  exact eq_packComponents (UnpackedFloat.zero.inj hb) hexponent hmantissa

theorem toNat_one_append (v : BitVec 52) : (1#1 ++ v).toNat = 2 ^ 52 + v.toNat := by
  change 2 ^ 52 ||| v.toNat = _
  rw [Nat.or_comm, Nat.or_two_pow_eq_add_of_lt v.isLt, Nat.add_comm]

/-- A significand of full length has a leading one that is not kept, and one that is shorter has the
exponent field zero. -/
theorem fields_of_finite {m : ℕ} {e : ℤ} {hm : 0 < m}
    (hb : UnpackedFloat.unpack Format.binary64 b = .finite s m e hm) :
    Sign.ofBitVec (unpackSign b) = s ∧
      (unpackExponent b).toNat = (if m < 2 ^ 52 then 0 else (e + 1075).toNat) ∧
      (unpackMantissa b).toNat = m % 2 ^ 52 := by
  have hlt : (unpackMantissa b).toNat < 2 ^ 52 := (unpackMantissa b).isLt
  rw [UnpackedFloat.unpack] at hb
  split_ifs at hb with _ _ hexponent hmantissa
  · obtain ⟨rfl, rfl, -⟩ := UnpackedFloat.finite.inj hb
    rw [if_pos hlt, Nat.mod_eq_of_lt hlt, hexponent]
    exact ⟨rfl, rfl, rfl⟩
  · obtain ⟨rfl, rfl, rfl⟩ := UnpackedFloat.finite.inj hb
    have hbias : (Format.binary64.exponentBias : ℤ) +
        (Format.binary64.mantissaBitsWithoutImplicit : ℤ) = 1075 := rfl
    rw [toNat_one_append, if_neg (by omega), hbias, Int.sub_add_cancel, Int.toNat_natCast,
      Nat.add_mod_left, Nat.mod_eq_of_lt hlt]
    exact ⟨rfl, rfl, rfl⟩

end Bits

theorem eq_of_toBits {x y : Float}
    (hbits : x.toModel.toBits.toBitVec = y.toModel.toBits.toBitVec) : x = y := by
  rcases x with ⟨⟨⟨x⟩, _⟩⟩
  rcases y with ⟨⟨⟨y⟩, _⟩⟩
  cases (hbits : x = y)
  rfl

/-- What is a number is given by its kind. -/
theorem eq_of_unpack_eq {x y : Float} (hkind : x.toModel.unpack = y.toModel.unpack)
    (hx : x.isNaN = false) : x = y := by
  apply eq_of_toBits
  rcases hy : y.toModel.unpack with s | _ | s | ⟨s, m, e, hm⟩ <;> rw [hy] at hkind
  · rw [eq_packedInfinity hkind, eq_packedInfinity hy]
  · rw [Float.isNaN, Float.Model.isNaN, hkind] at hx
    cases hx
  · rw [eq_packedZero hkind, eq_packedZero hy]
  · obtain ⟨hsign, hexponent, hmantissa⟩ := fields_of_finite hkind
    obtain ⟨hsign', hexponent', hmantissa'⟩ := fields_of_finite hy
    rw [eq_packComponents hsign' (BitVec.eq_of_toNat_eq (hexponent'.trans hexponent.symm))
      (BitVec.eq_of_toNat_eq (hmantissa'.trans hmantissa.symm))]
    exact eq_packComponents hsign rfl rfl

theorem eq_of_then_compare {e e' : ℤ} {m m' : ℕ}
    (h : (compare e e').then (compare m m') = .eq) : e = e' ∧ m = m' := by
  rwa [Ordering.then_eq_eq, Std.compare_eq_iff_eq, Std.compare_eq_iff_eq] at h

theorem finite_eq_of_compare {s s' : Sign} {m m' : ℕ} {e e' : ℤ} {hm : 0 < m} {hm' : 0 < m'}
    (h : (UnpackedFloat.finite s m e hm).compare (.finite s' m' e' hm') = some .eq) :
    UnpackedFloat.finite s m e hm = .finite s' m' e' hm' := by
  cases s with
  | negative =>
      cases s' with
      | negative =>
          have hswap := Ordering.swap_eq_eq.1 (Option.some.inj h)
          obtain ⟨rfl, rfl⟩ := eq_of_then_compare hswap
          rfl
      | positive => cases h
  | positive =>
      cases s' with
      | negative => cases h
      | positive =>
          obtain ⟨rfl, rfl⟩ := eq_of_then_compare (Option.some.inj h)
          rfl

/-- Kinds that compare as equal are the same, unless they are zeros. -/
theorem eq_or_isZeroKind_of_compare {f g : UnpackedFloat} (h : f.compare g = some .eq) :
    f = g ∨ isZeroKind f = true ∧ isZeroKind g = true := by
  cases f with
  | notANumber => cases h
  | infinity s =>
      left
      cases g with
      | infinity s' => cases s <;> cases s' <;> first | rfl | cases h
      | _ => cases s <;> cases h
  | zero s =>
      cases g with
      | zero s' => exact .inr ⟨rfl, rfl⟩
      | notANumber => cases h
      | infinity s' => cases s' <;> cases h
      | finite s' m e hm => cases s' <;> cases h
  | finite s m e hm =>
      left
      cases g with
      | finite s' m' e' hm' => exact finite_eq_of_compare h
      | notANumber => cases s <;> cases h
      | infinity s' => cases s <;> cases s' <;> cases h
      | zero s' => cases s <;> cases h

/-- Machine numbers that compare as equal are the same, unless they are zeros. -/
theorem eq_or_isZero_of_beq {x y : Float} (h : (x == y) = true) :
    x = y ∨ isZero x = true ∧ isZero y = true := by
  have hcompare : x.toModel.unpack.compare y.toModel.unpack = some .eq := LawfulBEq.eq_of_beq h
  rcases eq_or_isZeroKind_of_compare hcompare with hkind | hzero
  · refine .inl (eq_of_unpack_eq hkind ?_)
    cases hx : x.isNaN with
    | false => rfl
    | true =>
        rw [eq_notANumber hx] at hcompare
        cases hcompare
  · exact .inr hzero

theorem eq_zero_of_isZero {x : Float} (hx : isZero x = true) : x = 0.0 ∨ x = -0.0 := by
  rcases hkind : x.toModel.unpack with s | _ | s | _ <;> rw [isZero, hkind] at hx
  case zero =>
    cases s with
    | negative => exact .inr (eq_of_toBits (eq_packedZero hkind))
    | positive => exact .inl (eq_of_toBits (eq_packedZero hkind))
  all_goals cases hx

end Machine

end Seeing
