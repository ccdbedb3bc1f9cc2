import Seeing.Proofs.Grid
import Seeing.Scalar

/-!
# Real numbers as scalars

Over the real numbers the simulation is computed without rounding, and its
definitions state the theory of the images. Every operation of the class is the
one of analysis. A count has no upper end, but what is counted still has to stay
below `2 ^ 64`, as it has for machine numbers.

The `real_` lemmas turn the operations of the class into those of the field, so
that `simp`, `ring` and `linarith` read the definitions of the library. The sums
of the library become sums over finite types.
-/

open Real

namespace Seeing

/-! The literals of the field rest on these bounds. They are named here once, so that all
definitions refer to the same ones. -/

instance instAtLeastTwoTwo : Nat.AtLeastTwo 2 := inferInstance

instance instAtLeastTwoThree : Nat.AtLeastTwo 3 := inferInstance

instance instAtLeastTwoFive : Nat.AtLeastTwo 5 := inferInstance

instance instAtLeastTwoSix : Nat.AtLeastTwo 6 := inferInstance

instance instAtLeastTwoTen : Nat.AtLeastTwo 10 := inferInstance

noncomputable instance instScalarReal : Scalar ℝ where
  decidableLT := inferInstance
  decidableLE := inferInstance
  ofNat := Nat.cast
  ofDecimal m neg e := if neg then m / 10 ^ e else m * 10 ^ e
  sqrt := Real.sqrt
  exp := Real.exp
  log := Real.log
  log10 := Real.logb 10
  pow x y := x ^ y
  sin := Real.sin
  cos := Real.cos
  hypot x y := √(x ^ 2 + y ^ 2)
  pi := π
  floor x := ⌊x⌋
  ceil x := ⌈x⌉
  round x := if x < 0 then -(⌊-x + 1 / 2⌋ : ℝ) else ⌊x + 1 / 2⌋
  toNat x := ⌊x⌋₊
  isCountable x := decide (x < 2 ^ 64)
  wrap x n := x - n * ⌊x / n⌋
  isFinite _ := true
  besselJ0 x := (∫ θ in (0)..π, Real.cos (x * Real.sin θ)) / π
  gamma := Real.Gamma

namespace Scalar

@[simp] theorem real_add (x y : ℝ) :
    @HAdd.hAdd ℝ ℝ ℝ (@instHAdd ℝ Scalar.toAdd) x y = x + y := rfl

@[simp] theorem real_sub (x y : ℝ) :
    @HSub.hSub ℝ ℝ ℝ (@instHSub ℝ Scalar.toSub) x y = x - y := rfl

@[simp] theorem real_mul (x y : ℝ) :
    @HMul.hMul ℝ ℝ ℝ (@instHMul ℝ Scalar.toMul) x y = x * y := rfl

@[simp] theorem real_div (x y : ℝ) :
    @HDiv.hDiv ℝ ℝ ℝ (@instHDiv ℝ Scalar.toDiv) x y = x / y := rfl

@[simp] theorem real_neg (x : ℝ) : @Neg.neg ℝ Scalar.toNeg x = -x := rfl

@[simp] theorem real_lt (x y : ℝ) : @LT.lt ℝ Scalar.toLT x y ↔ x < y := Iff.rfl

@[simp] theorem real_le (x y : ℝ) : @LE.le ℝ Scalar.toLE x y ↔ x ≤ y := Iff.rfl

@[simp] theorem real_beq (x y : ℝ) :
    @BEq.beq ℝ Scalar.toBEq x y = decide (x = y) := rfl

@[simp] theorem real_zero : @OfNat.ofNat ℝ 0 (instOfNatScalar 0) = 0 :=
  Nat.cast_zero

@[simp] theorem real_one : @OfNat.ofNat ℝ 1 (instOfNatScalar 1) = 1 :=
  Nat.cast_one

@[simp] theorem real_literal (n : ℕ) [n.AtLeastTwo] :
    @OfNat.ofNat ℝ n (instOfNatScalar n) = OfNat.ofNat n := rfl

@[simp] theorem real_decimal (m : ℕ) (neg : Bool) (e : ℕ) :
    @OfScientific.ofScientific ℝ instOfScientificScalar m neg e =
      if neg then (m : ℝ) / 10 ^ e else m * 10 ^ e := rfl

@[simp] theorem real_ofNat (n : ℕ) : (Scalar.ofNat n : ℝ) = n := rfl

@[simp] theorem real_pi : (Scalar.pi : ℝ) = π := rfl

@[simp] theorem real_cos (x : ℝ) : Scalar.cos x = Real.cos x := rfl

@[simp] theorem real_sin (x : ℝ) : Scalar.sin x = Real.sin x := rfl

@[simp] theorem real_exp (x : ℝ) : Scalar.exp x = Real.exp x := rfl

@[simp] theorem real_sqrt (x : ℝ) : Scalar.sqrt x = √x := rfl

@[simp] theorem real_pow (x y : ℝ) : Scalar.pow x y = x ^ y := rfl

@[simp] theorem real_hypot (x y : ℝ) : Scalar.hypot x y = √(x ^ 2 + y ^ 2) := rfl

@[simp] theorem real_half : (half : ℝ) = 1 / 2 := by
  simp [half]
  norm_num

theorem larger_eq_max (x y : ℝ) : larger x y = max x y := by
  rcases le_or_gt x y with h | h
  · simp [larger, h]
  · simp [larger, not_le.mpr h, h.le]

theorem smaller_eq_min (x y : ℝ) : smaller x y = min x y := by
  rcases le_or_gt x y with h | h
  · simp [smaller, h]
  · simp [smaller, not_le.mpr h, h.le]

theorem toNat_floor (x : ℝ) : toNat (floor x) = ⌊x⌋₊ := by
  change ⌊((⌊x⌋ : ℤ) : ℝ)⌋₊ = ⌊x⌋₊
  rw [← Int.floor_toNat, Int.floor_intCast, Int.floor_toNat]

theorem sumList_eq_sum (xs : List ℝ) : sumList xs = xs.sum := by
  rw [List.sum_eq_foldl]
  simp [sumList]

end Scalar

/-- A loop that adds to a quantity in every turn. -/
theorem apply_fold_eq_sum {β : Type} {n : ℕ} (q : β → ℝ) (f : (i : ℕ) → i < n → β → β)
    (g : Fin n → ℝ) (hf : ∀ i hi b, q (f i hi b) = q b + g ⟨i, hi⟩) (b : β) :
    q (Nat.fold n f b) = q b + ∑ i, g i := by
  induction n with
  | zero => simp
  | succ n ih =>
      rw [Nat.fold_succ, hf, ih _ (fun i => g i.castSucc) fun i hi => hf i (by omega),
        Fin.sum_univ_castSucc, add_assoc]
      rfl

/-- The sum of the values of a grid, row after row, is their double sum. -/
theorem Grid.sumArray_toArray {w h : ℕ} (g : Grid w h ℝ) :
    Scalar.sumArray g.toArray = ∑ j, ∑ i, g.get i j := by
  rw [Scalar.sumArray_eq_sumList, Scalar.sumList_eq_sum, toList_toArray,
    List.flatMap_def, List.sum_flatten, List.map_map, Fin.sum_univ_def]
  simp [Function.comp_def, Fin.sum_univ_def]

end Seeing
