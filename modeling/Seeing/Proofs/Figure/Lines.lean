import Seeing.Figure
import Seeing.Proofs.Scalar.Whole

/-!
# The lines across an image

The lines between the columns of an image are drawn at machine numbers rounded down to pixels. The
operations keep the order of their results, so the lines ascend, `lineAt_mono`, from the first pixel
of the area, `lineAt_zero`, to its last one, `lineAt_self`. Rows are counted from the top and lines
from the bottom: `rowStart` ascends likewise.
-/

open Float.Model

namespace Seeing

open Machine

namespace Figure

variable {side count k l : ℕ}

section Offset

/-- The distance of a line from the edge of its area, before it is rounded down. -/
def lineOffset (side count k : ℕ) : Float :=
  Float.ofNat (side - 1) * (Float.ofNat k / Float.ofNat count) + 0.001

theorem lineAt_eq {u : ℝ} (hu : Denotes (lineOffset side count k) u) :
    lineAt side count k = min ⌊u⌋₊ (2 ^ 64 - 1) := by
  have hline : lineAt side count k = min ⌊((⌊u⌋ : ℤ) : ℝ)⌋₊ (2 ^ 64 - 1) := hu.floor.toNat
  rw [hline, ← Int.floor_toNat, Int.floor_intCast, Int.floor_toNat]

theorem value_count_mono (hkl : k ≤ l) : value (Float.ofNat k) ≤ value (Float.ofNat l) :=
  (rounds_float_ofNat k).value_le (rounds_float_ofNat l) (by exact_mod_cast hkl)
    fun htie => .inl (congrArg Float.ofNat (by exact_mod_cast htie))

/-- One half more than a short count is a machine number. -/
theorem representable_add_half {n : ℕ} (hn : n < 2 ^ 52) : Representable (n + 1 / 2) := by
  have hunits : (n + 1 / 2 : ℝ) = (2 * n + 1 : ℕ) * 2 ^ (-1 : ℤ) := by
    norm_num
    ring
  rw [hunits]
  exact representable_mul_zpow (by omega) (by decide) (by decide)

/-- The small amount that is added to the distance does not take a line to the next pixel. -/
theorem lineAt_of_product {m : ℕ}
    (hp : Denotes (Float.ofNat (side - 1) * (Float.ofNat k / Float.ofNat count)) m)
    (hm : m < 2 ^ 52) : lineAt side count k = m := by
  have hhalf := representable_add_half hm
  obtain ⟨u, hu, hlow, hhigh⟩ := (rounds_add hp denotes_thousandth).exists_denotes
    hp.representable hhalf (by norm_num) (by norm_num)
  have hfloor : ⌊u⌋₊ = m := by
    rw [Nat.floor_eq_iff (hlow.trans' m.cast_nonneg)]
    constructor <;> linarith
  rw [lineAt_eq hu, hfloor, min_eq_left (by omega)]

variable (hcount : 0 < count) (hword : count < 2 ^ 64) (hside : side ≤ 2 ^ 52)

theorem denotes_side (hside : side ≤ 2 ^ 52) :
    Denotes (Float.ofNat (side - 1)) (side - 1 : ℕ) :=
  (rounds_float_ofNat _).denotes (representable_natCast (by omega))

include hcount hword in
/-- The part of the area that is before a line. -/
theorem exists_denotes_ratio (hk : k ≤ count) :
    ∃ q, Denotes (Float.ofNat k / Float.ofNat count) q ∧ 0 ≤ q ∧ q ≤ 1 := by
  obtain ⟨a, ha, ha₀, -⟩ := (rounds_float_ofNat k).exists_denotes_count (hk.trans_lt hword)
  obtain ⟨n, hn, -, hn₁⟩ := (rounds_float_ofNat count).exists_denotes_count hword
  have hpos : 0 < n := zero_lt_one.trans_le (hn₁ hcount)
  exact (rounds_div ha hn hpos.ne').exists_denotes representable_zero denotes_one.representable
    (div_nonneg ha₀ hpos.le) ((div_le_one hpos).2 (ha.le_of_value_le hn (value_count_mono hk)))

include hcount hword hside in
theorem exists_denotes_product (hk : k ≤ count) :
    ∃ p, Denotes (Float.ofNat (side - 1) * (Float.ofNat k / Float.ofNat count)) p ∧
      0 ≤ p ∧ p ≤ (side - 1 : ℕ) := by
  obtain ⟨q, hq, hq₀, hq₁⟩ := exists_denotes_ratio hcount hword hk
  have hs := denotes_side hside
  exact (rounds_mul hs hq).exists_denotes representable_zero hs.representable (by positivity)
    (mul_le_of_le_one_right (Nat.cast_nonneg _) hq₁)

include hcount hword hside in
theorem exists_denotes_lineOffset (hk : k ≤ count) :
    ∃ u, Denotes (lineOffset side count k) u ∧ 0 ≤ u ∧ u ≤ (side - 1 : ℕ) + 1 / 2 := by
  obtain ⟨p, hp, hp₀, hp₁⟩ := exists_denotes_product hcount hword hside hk
  refine (rounds_add hp denotes_thousandth).exists_denotes representable_zero
    (representable_add_half (by omega)) ?_ ?_
  · positivity
  · norm_num
    linarith

end Offset

section Lines

variable (hcount : 0 < count) (hword : count < 2 ^ 64) (hside : side ≤ 2 ^ 52)

include hcount hword hside

/-- Lines ascend. -/
theorem lineAt_mono (hkl : k ≤ l) (hl : l ≤ count) : lineAt side count k ≤ lineAt side count l := by
  have hk := hkl.trans hl
  obtain ⟨a, ha, -⟩ := (rounds_float_ofNat k).exists_denotes_count (hk.trans_lt hword)
  obtain ⟨b, hb, -⟩ := (rounds_float_ofNat l).exists_denotes_count (hl.trans_lt hword)
  obtain ⟨n, hn, -, hn₁⟩ := (rounds_float_ofNat count).exists_denotes_count hword
  obtain ⟨q, hq, -⟩ := exists_denotes_ratio hcount hword hk
  obtain ⟨q', hq', -⟩ := exists_denotes_ratio hcount hword hl
  obtain ⟨p, hp, -⟩ := exists_denotes_product hcount hword hside hk
  obtain ⟨p', hp', -⟩ := exists_denotes_product hcount hword hside hl
  obtain ⟨u, hu, -⟩ := exists_denotes_lineOffset hcount hword hside hk
  obtain ⟨u', hu', -⟩ := exists_denotes_lineOffset hcount hword hside hl
  have hnumerator : a ≤ b := ha.le_of_value_le hb (value_count_mono hkl)
  have hratio : q ≤ q' :=
    hq.le_of_value_le hq' (value_div_mono ha hb hn hnumerator (zero_lt_one.trans_le (hn₁ hcount)))
  have hproduct : p ≤ p' :=
    hp.le_of_value_le hp' (value_mul_mono hq hq' (denotes_side hside) hratio (Nat.cast_nonneg _))
  have hoffset : u ≤ u' :=
    hu.le_of_value_le hu' (value_add_mono hp hp' denotes_thousandth hproduct)
  rw [lineAt_eq hu, lineAt_eq hu']
  exact min_le_min_right _ (Nat.floor_le_floor hoffset)

/-- No line is beyond the last pixel. -/
theorem lineAt_le (hk : k ≤ count) : lineAt side count k ≤ side - 1 := by
  obtain ⟨u, hu, -, hle⟩ := exists_denotes_lineOffset hcount hword hside hk
  rw [lineAt_eq hu]
  refine (min_le_left _ _).trans (Nat.lt_succ_iff.1 ((Nat.floor_lt' (Nat.succ_ne_zero _)).2 ?_))
  push_cast
  linarith

theorem lineAt_zero : lineAt side count 0 = 0 := by
  obtain ⟨n, hn, -, hn₁⟩ := (rounds_float_ofNat count).exists_denotes_count hword
  have hzero : Denotes (Float.ofNat 0) 0 := denotes_zero
  have hratio := rounds_div hzero hn (zero_lt_one.trans_le (hn₁ hcount)).ne'
  rw [zero_div] at hratio
  have hproduct := rounds_mul (denotes_side hside) (hratio.denotes representable_zero)
  rw [mul_zero, ← Nat.cast_zero] at hproduct
  exact lineAt_of_product (hproduct.denotes (representable_natCast (by decide))) (by decide)

theorem lineAt_self : lineAt side count count = side - 1 := by
  obtain ⟨n, hn, -, hn₁⟩ := (rounds_float_ofNat count).exists_denotes_count hword
  have hpos := zero_lt_one.trans_le (hn₁ hcount)
  have hratio := rounds_div hn hn hpos.ne'
  rw [div_self hpos.ne'] at hratio
  have hproduct := rounds_mul (denotes_side hside) (hratio.denotes denotes_one.representable)
  rw [mul_one] at hproduct
  exact lineAt_of_product (hproduct.denotes (denotes_side hside).representable) (by omega)

theorem monotoneOn_lineAt : MonotoneOn (lineAt side count) (Set.Iic count) :=
  fun _ _ _ hl hkl => lineAt_mono hcount hword hside hkl hl

end Lines

section Rows

/-- Where a row of an image starts, counted in rows of pixels from the top of the area. -/
def rowStart (side count j : ℕ) : ℕ := side - 1 - lineAt side count (count - j)

variable (hcount : 0 < count) (hword : count < 2 ^ 64) (hside : side ≤ 2 ^ 52)

include hcount hword hside

theorem rowStart_zero : rowStart side count 0 = 0 := by
  rw [rowStart, Nat.sub_zero, lineAt_self hcount hword hside, Nat.sub_self]

theorem rowStart_self : rowStart side count count = side - 1 := by
  rw [rowStart, Nat.sub_self, lineAt_zero hcount hword hside, Nat.sub_zero]

theorem monotoneOn_rowStart : MonotoneOn (rowStart side count) (Set.Iic count) :=
  fun _ _ _ _ hjl => Nat.sub_le_sub_left
    (lineAt_mono hcount hword hside (Nat.sub_le_sub_left hjl _) (Nat.sub_le _ _)) _

end Rows

end Figure

end Seeing
