import Seeing.Proofs.Image.Accumulation
import Seeing.Proofs.Scalar.Whole

/-!
# Flux that arrives outside of an image

An image tests the distance of a coordinate from the edge of an axis, measured in pixels. On machine
numbers the distance is rounded: what is taken has arrived on the axis, or before it by less than
the precision, `bounds_of_admits`, and what is refused has arrived outside of it, or before its end
by less than the precision, `bounds_of_not_admits`. An infinite distance is refused,
`not_admits_of_infinity`. But what is no number compares with nothing and passes the test. It is
counted to the first pixel, `place?_of_isNaN`. This happens to a coordinate that is no number, and
to an infinite one in an image of infinite scale. `accumulate_outcome` lists all that can happen.
-/

open Float.Model
open Float.Model.UnpackedFloat

namespace Seeing

open Machine

namespace Image

/-- The coordinate is taken to a pixel. -/
inductive Lands (scale x : Float) {count : ℕ} (i : Fin count) : Prop where
  /-- Measured in pixels it is no number. -/
  | unmeasured (hx : x.isNaN = true ∨ x.isInf = true ∧ scale.isInf = true) (hi : i.val = 0)
  /-- The pixels are infinite, and it is in one of them. -/
  | endless (hx : x.isFinite = true) (hscale : scale.isInf = true)
  /-- It is on the axis, or before it by less than the precision. -/
  | inside {a s n : ℝ} (hx : Denotes x a) (hscale : Denotes scale s)
      (hcount : Denotes (Scalar.ofNat count) n) (hlow : -((1 + 2 ^ (-52 : ℤ)) * (n * s / 2)) ≤ a)
      (hhigh : a < n * s / 2)

/-- The coordinate is refused. -/
inductive Misses (scale : Float) (count : ℕ) (x : Float) : Prop where
  /-- It is infinite and the pixels are not. -/
  | infinite (hx : x.isInf = true) (hscale : scale.isFinite = true)
  /-- It is outside of the axis, or before its end by less than the precision. -/
  | outside {a s n : ℝ} (hx : Denotes x a) (hscale : Denotes scale s)
      (hcount : Denotes (Scalar.ofNat count) n)
      (hout : a < -(n * s / 2) ∨ (1 - 2 ^ (-51 : ℤ)) * (n * s / 2) < a)

/-- The distance of a coordinate from the edge of an axis, measured in pixels. -/
def offset (scale : Float) (count : ℕ) (x : Float) : Float :=
  x / scale + Scalar.half * Scalar.ofNat count

section Test

variable {x scale : Float} {count : ℕ}

theorem placeOf_eq_floor : placeOf scale count x = Machine.floor (offset scale count x) := rfl

/-- What is no number passes the test and is counted to the first pixel. -/
theorem place?_of_isNaN (hpos : 0 < count) (hnan : (offset scale count x).isNaN = true) :
    place? scale count x = some ⟨0, hpos⟩ := by
  have hplace : (placeOf scale count x).isNaN = true := by
    rwa [placeOf_eq_floor, floor_of_isNaN hnan]
  rw [place?_eq_some_iff_admits]
  exact ⟨not_or.2 ⟨not_lt_of_isNaN_left hplace _, not_le_of_isNaN_right hplace _⟩,
    toNat_of_isNaN hplace⟩

theorem not_between_of_infinity {x : Float} {s : Sign} (hkind : x.toModel.unpack = .infinity s)
    (c : EReal) : ¬(0 ≤ value x ∧ value x < c) := by
  rcases value_infinity_cases hkind with hvalue | hvalue <;> rw [hvalue]
  · exact fun h => absurd h.1 (not_le.2 (EReal.bot_lt_coe 0))
  · exact fun h => absurd h.2 (not_lt.2 le_top)

theorem admits_iff_placeOf (hnan : (placeOf scale count x).isNaN = false) :
    Admits scale count x ↔ 0 ≤ value (placeOf scale count x) ∧
      value (placeOf scale count x) < value (Scalar.ofNat count) := by
  have hzero : value 0 = 0 := denotes_zero.value_eq
  rw [Admits, not_or, ← not_lt, ← not_le (a := value (Scalar.ofNat count)), ← hzero]
  exact and_congr (not_congr (lt_iff_value_lt hnan denotes_zero.isNaN))
    (not_congr (le_iff_value_le (rounds_ofNat count).isNaN hnan))

/-- What passes the test is counted to a pixel. -/
theorem toNat_placeOf_lt_count (hpos : 0 < count) (hadmits : Admits scale count x) :
    Scalar.toNat (placeOf scale count x) < count := by
  cases hnan : (placeOf scale count x).isNaN with
  | true => exact (toNat_of_isNaN hnan).trans_lt hpos
  | false =>
      rw [admits_iff_placeOf hnan] at hadmits
      rcases denotes_or_infinity hnan with ⟨a, ha⟩ | ⟨s, hkind⟩
      · rw [ha.value_eq] at hadmits
        have hlt : a < count := by
          by_contra hle
          exact not_le.2 hadmits.2 ((rounds_ofNat count).ge a ha.representable (not_lt.1 hle))
        refine (ha.toNat.trans_le (min_le_left _ _)).trans_lt ?_
        exact (Nat.floor_lt (by exact_mod_cast hadmits.1)).2 hlt
      · exact absurd hadmits (not_between_of_infinity hkind _)

theorem exists_place?_iff_admits (hpos : 0 < count) :
    (∃ i, place? scale count x = some i) ↔ Admits scale count x := by
  simp only [place?_eq_some_iff_admits]
  constructor
  · rintro ⟨i, hadmits, -⟩
    exact hadmits
  · exact fun hadmits => ⟨⟨_, toNat_placeOf_lt_count hpos hadmits⟩, hadmits, rfl⟩

theorem place?_eq_none (hpos : 0 < count) (hadmits : ¬Admits scale count x) :
    place? scale count x = none := by
  rw [← Option.not_isSome_iff_eq_none, Option.isSome_iff_exists, exists_place?_iff_admits hpos]
  exact hadmits

/-- The ends of the axis are whole, so the distance can be compared before it is rounded down. -/
theorem admits_iff (hpos : 0 < count) (hcount : count < 2 ^ 64)
    (hnan : (offset scale count x).isNaN = false) :
    Admits scale count x ↔ 0 ≤ value (offset scale count x) ∧
      value (offset scale count x) < value (Scalar.ofNat count) := by
  rw [Admits, not_or, ← not_lt, ← not_le (a := value (Scalar.ofNat count))]
  exact and_congr (not_congr (floor_lt_zero_iff hnan))
    (not_congr (ofNat_le_floor_iff hpos hcount hnan))

end Test

section Count

variable {count : ℕ} (hpos : 0 < count) (hcount : count < 2 ^ 64)

include hpos hcount in
theorem exists_denotes_count : ∃ n : ℝ, Denotes (Scalar.ofNat count) n := by
  obtain ⟨k, hk, -⟩ := exists_denotes_ofNat hpos hcount
  exact ⟨k, hk⟩

variable {n : ℝ} (hn : Denotes (Scalar.ofNat count) n)

include hpos hcount hn in
theorem one_le_of_denotes_ofNat : 1 ≤ n := by
  obtain ⟨k, hk, hone⟩ := exists_denotes_ofNat hpos hcount
  have heq : (k : ℝ) = n := EReal.coe_eq_coe_iff.1 (hk.value_eq.symm.trans hn.value_eq)
  rw [← heq]
  exact_mod_cast hone

include hpos hcount hn in
/-- Half of the machine number of a count is some units of the last place. -/
theorem exists_half_units :
    ∃ (m : ℕ) (e : ℤ), n = 2 * (m * 2 ^ e) ∧ 2 ^ 52 ≤ m ∧ m < 2 ^ 53 ∧ -53 ≤ e ∧ e ≤ 970 := by
  obtain ⟨m, e, hvalue, hm, hm', he, he'⟩ :=
    hn.representable.exists_units (one_le_of_denotes_ofNat hpos hcount hn)
  refine ⟨m, e - 1, ?_, hm, hm', by omega, by omega⟩
  rw [hvalue, zpow_sub_one₀ two_ne_zero]
  ring

include hpos hcount hn in
theorem denotes_half_mul_ofNat : Denotes (Scalar.half * Scalar.ofNat count) (n / 2) := by
  have hround := rounds_mul denotes_half hn
  rw [one_div_mul_eq_div] at hround
  refine hround.denotes ?_
  obtain ⟨m, e, rfl, -, hm, he, he'⟩ := exists_half_units hpos hcount hn
  rw [mul_div_cancel_left₀ _ two_ne_zero]
  exact representable_mul_zpow hm.le (by omega) (by omega)

end Count

section Finite

variable {x scale : Float} {count : ℕ} {a s n : ℝ} (hpos : 0 < count) (hcount : count < 2 ^ 64)
  (hn : Denotes (Scalar.ofNat count) n) (hx : Denotes x a) (hs : Denotes scale s) (hs₀ : 0 < s)

include hpos hcount hn hx hs hs₀

theorem isNaN_offset : (offset scale count x).isNaN = false :=
  isNaN_add_of_denotes (rounds_div hx hs hs₀.ne').isNaN (denotes_half_mul_ofNat hpos hcount hn)

/-- A machine number that bounds the coordinate bounds the distance, if that of the bound is a
machine number. -/
theorem le_value_offset {c : ℝ} (hc : Representable c) (hsum : Representable (c + n / 2))
    (hle : c * s ≤ a) : ((c + n / 2 : ℝ) : EReal) ≤ value (offset scale count x) := by
  have hratio := rounds_div hx hs hs₀.ne'
  exact le_value_add hratio.isNaN (denotes_half_mul_ofNat hpos hcount hn)
    (hratio.le c hc ((le_div_iff₀ hs₀).2 hle)) hsum

theorem value_offset_le {c : ℝ} (hc : Representable c) (hsum : Representable (c + n / 2))
    (hle : a ≤ c * s) : value (offset scale count x) ≤ ((c + n / 2 : ℝ) : EReal) := by
  have hratio := rounds_div hx hs hs₀.ne'
  exact value_add_le hratio.isNaN (denotes_half_mul_ofNat hpos hcount hn)
    (hratio.ge c hc ((div_le_iff₀ hs₀).2 hle)) hsum

/-- The machine number next to the lower edge is before it by a unit of the last place. -/
theorem value_offset_neg (hlow : a < -((1 + 2 ^ (-52 : ℤ)) * (n * s / 2))) :
    value (offset scale count x) < 0 := by
  obtain ⟨m, e, hunits, hm, hm', he, he'⟩ := exists_half_units hpos hcount hn
  have hunit : (0 : ℝ) < 2 ^ e := by positivity
  have hle : a ≤ -((m + 1 : ℕ) * 2 ^ e) * s := by
    have hm : (2 : ℝ) ^ 52 ≤ m := by exact_mod_cast hm
    have hfactor : (m + 1 : ℝ) ≤ (1 + 2 ^ (-52 : ℤ)) * m := by
      norm_num
      linarith
    calc a ≤ -((1 + 2 ^ (-52 : ℤ)) * (n * s / 2)) := hlow.le
      _ = -((1 + 2 ^ (-52 : ℤ)) * m * (2 ^ e * s)) := by rw [hunits]; ring
      _ ≤ -((m + 1) * (2 ^ e * s)) :=
          neg_le_neg (mul_le_mul_of_nonneg_right hfactor (mul_pos hunit hs₀).le)
      _ = -((m + 1 : ℕ) * 2 ^ e) * s := by push_cast; ring
  have hsum : (-((m + 1 : ℕ) * 2 ^ e) + n / 2 : ℝ) = -((1 : ℕ) * 2 ^ e) := by
    rw [hunits]
    push_cast
    ring
  have hplace := value_offset_le hpos hcount hn hx hs hs₀
    (representable_mul_zpow (by omega) (by omega) (by omega)).neg
    (by rw [hsum]; exact (representable_mul_zpow (by decide) (by omega) (by omega)).neg) hle
  rw [hsum] at hplace
  refine hplace.trans_lt (EReal.coe_neg'.2 ?_)
  push_cast
  linarith

theorem value_offset_nonneg (hlow : -(n * s / 2) ≤ a) : 0 ≤ value (offset scale count x) := by
  have hplace := le_value_offset hpos hcount hn hx hs hs₀
    (denotes_half_mul_ofNat hpos hcount hn).representable.neg
    (by rw [neg_add_cancel]; exact representable_zero) (by linarith)
  rwa [neg_add_cancel] at hplace

theorem le_value_offset_of_le (hhigh : n * s / 2 ≤ a) : n ≤ value (offset scale count x) := by
  have hplace := le_value_offset hpos hcount hn hx hs hs₀
    (denotes_half_mul_ofNat hpos hcount hn).representable
    (by rw [add_halves]; exact hn.representable) (by linarith)
  rwa [add_halves] at hplace

/-- Two units of the last place before the end of the axis the sum is before it by a unit of its
own. -/
theorem value_offset_lt (hhigh : a ≤ (1 - 2 ^ (-51 : ℤ)) * (n * s / 2)) :
    value (offset scale count x) < n := by
  obtain ⟨m, e, hunits, hm, hm', he, he'⟩ := exists_half_units hpos hcount hn
  obtain ⟨k, rfl⟩ := Nat.exists_eq_add_of_le' ((by decide : 2 ≤ 2 ^ 52).trans hm)
  have hunit : (0 : ℝ) < 2 ^ e := by positivity
  have hle : a ≤ k * 2 ^ e * s := by
    have hm : (2 : ℝ) ^ 52 ≤ k + 2 := by exact_mod_cast hm
    have hfactor : (1 - 2 ^ (-51 : ℤ)) * (k + 2) ≤ (k : ℝ) := by
      norm_num
      linarith
    calc a ≤ (1 - 2 ^ (-51 : ℤ)) * (n * s / 2) := hhigh
      _ = (1 - 2 ^ (-51 : ℤ)) * (k + 2) * (2 ^ e * s) := by rw [hunits]; push_cast; ring
      _ ≤ k * (2 ^ e * s) := mul_le_mul_of_nonneg_right hfactor (mul_pos hunit hs₀).le
      _ = k * 2 ^ e * s := by ring
  have hsum : (k * 2 ^ e + n / 2 : ℝ) = (k + 1 : ℕ) * 2 ^ (e + 1) := by
    rw [hunits, zpow_add_one₀ two_ne_zero]
    push_cast
    ring
  have hplace := value_offset_le hpos hcount hn hx hs hs₀
    (representable_mul_zpow (by omega) (by omega) (by omega))
    (by rw [hsum]; exact representable_of_lt (by omega) (by omega) (by omega)) hle
  refine hplace.trans_lt (EReal.coe_lt_coe_iff.2 ?_)
  rw [hunits]
  push_cast
  linarith

/-- What passes the test is on the axis, or before it by less than the precision. -/
theorem bounds_of_admits (hadmits : Admits scale count x) :
    -((1 + 2 ^ (-52 : ℤ)) * (n * s / 2)) ≤ a ∧ a < n * s / 2 := by
  rw [admits_iff hpos hcount (isNaN_offset hpos hcount hn hx hs hs₀), hn.value_eq] at hadmits
  constructor
  · by_contra hlow
    exact not_le.2 (value_offset_neg hpos hcount hn hx hs hs₀ (not_le.1 hlow)) hadmits.1
  · by_contra hhigh
    exact not_le.2 hadmits.2 (le_value_offset_of_le hpos hcount hn hx hs hs₀ (not_lt.1 hhigh))

/-- What does not pass it is outside of the axis, or before its end by less than the precision. -/
theorem bounds_of_not_admits (hadmits : ¬Admits scale count x) :
    a < -(n * s / 2) ∨ (1 - 2 ^ (-51 : ℤ)) * (n * s / 2) < a := by
  by_contra hin
  rw [not_or, not_lt, not_lt] at hin
  apply hadmits
  rw [admits_iff hpos hcount (isNaN_offset hpos hcount hn hx hs hs₀), hn.value_eq]
  exact ⟨value_offset_nonneg hpos hcount hn hx hs hs₀ hin.1,
    value_offset_lt hpos hcount hn hx hs hs₀ hin.2⟩

end Finite

section Infinite

variable {x scale : Float} {count : ℕ} (hpos : 0 < count) (hcount : count < 2 ^ 64)

include hpos hcount in
/-- An infinite distance is refused. -/
theorem not_admits_of_infinity {s : Sign} (hkind : (x / scale).toModel.unpack = .infinity s) :
    ¬Admits scale count x := by
  obtain ⟨n, hn⟩ := exists_denotes_count hpos hcount
  have hoffset : (offset scale count x).toModel.unpack = .infinity s :=
    unpack_add_of_infinity hkind (denotes_half_mul_ofNat hpos hcount hn)
  have hnan : (offset scale count x).isNaN = false := by
    rw [Float.isNaN, Float.Model.isNaN, hoffset]
    rfl
  rw [admits_iff hpos hcount hnan]
  exact not_between_of_infinity hoffset _

include hpos hcount in
/-- In an image of infinite scale every coordinate is in the middle of the axis. -/
theorem admits_of_infinity {a : ℝ} {s : Sign} (hx : Denotes x a)
    (hkind : scale.toModel.unpack = .infinity s) : Admits scale count x := by
  obtain ⟨n, hn⟩ := exists_denotes_count hpos hcount
  have hone := one_le_of_denotes_ofNat hpos hcount hn
  have hhalf := denotes_half_mul_ofNat hpos hcount hn
  have hround := rounds_add (denotes_div_of_infinity hx hkind) hhalf
  rw [zero_add] at hround
  have hvalue : value (offset scale count x) = (n / 2 : ℝ) := hround.value_eq hhalf.representable
  rw [admits_iff hpos hcount hround.isNaN, hvalue, hn.value_eq, EReal.coe_nonneg,
    EReal.coe_lt_coe_iff]
  constructor <;> linarith

end Infinite

section Outcome

variable {x scale : Float} {count : ℕ} (hscale : 0 < scale) (hpos : 0 < count)
  (hcount : count < 2 ^ 64)

include hpos in
theorem exists_place?_of_isNaN (hnan : (x / scale).isNaN = true)
    (hx : x.isNaN = true ∨ x.isInf = true ∧ scale.isInf = true) :
    ∃ i, place? scale count x = some i ∧ Lands scale x i :=
  ⟨⟨0, hpos⟩, place?_of_isNaN hpos (isNaN_add_of_isNaN hnan _), .unmeasured hx rfl⟩

include hpos hcount in
theorem place?_outcome_finite {a s : ℝ} (hx : Denotes x a) (hs : Denotes scale s) (hs₀ : 0 < s) :
    (∃ i, place? scale count x = some i ∧ Lands scale x i) ∨
      place? scale count x = none ∧ Misses scale count x := by
  obtain ⟨n, hn⟩ := exists_denotes_count hpos hcount
  by_cases hadmits : Admits scale count x
  · left
    obtain ⟨i, hi⟩ := (exists_place?_iff_admits hpos).2 hadmits
    obtain ⟨hlow, hhigh⟩ := bounds_of_admits hpos hcount hn hx hs hs₀ hadmits
    exact ⟨i, hi, .inside hx hs hn hlow hhigh⟩
  · exact .inr ⟨place?_eq_none hpos hadmits,
      .outside hx hs hn (bounds_of_not_admits hpos hcount hn hx hs hs₀ hadmits)⟩

include hscale hpos hcount in
/-- What the test of an axis makes of a coordinate. -/
theorem place?_outcome :
    (∃ i, place? scale count x = some i ∧ Lands scale x i) ∨
      place? scale count x = none ∧ Misses scale count x := by
  have hnumber : scale.isNaN = false := by
    by_contra hnan
    exact not_lt_of_isNaN_right (by simpa using hnan) 0 hscale
  rcases isNaN_or_isInf_or_denotes x with hx | hx | ⟨a, hx⟩
  · exact .inl (exists_place?_of_isNaN hpos (by rw [isNaN_div, hx]; rfl) (.inl hx))
  · rcases denotes_or_infinity hnumber with ⟨s, hs⟩ | hinfinite
    · obtain ⟨t, hkind⟩ := isInf_iff.1 hx
      obtain ⟨t', hratio⟩ := unpack_div_of_infinity hkind hs
      exact .inr ⟨place?_eq_none hpos (not_admits_of_infinity hpos hcount hratio),
        .infinite hx (exists_denotes_iff.1 ⟨s, hs⟩)⟩
    · have hinf := isInf_iff.2 hinfinite
      exact .inl (exists_place?_of_isNaN hpos (by rw [isNaN_div, hx, hinf]; simp)
        (.inr ⟨hx, hinf⟩))
  · rcases denotes_or_infinity hnumber with ⟨s, hs⟩ | ⟨t, hkind⟩
    · exact place?_outcome_finite hpos hcount hx hs ((denotes_zero.lt_iff hs).1 hscale)
    · left
      obtain ⟨i, hi⟩ := (exists_place?_iff_admits hpos).2 (admits_of_infinity hpos hcount hx hkind)
      exact ⟨i, hi, .endless (exists_denotes_iff.1 ⟨a, hx⟩) (isInf_iff.2 ⟨t, hkind⟩)⟩

end Outcome

/-- Flux is taken to a pixel, or it is refused and the image is as before. -/
theorem accumulate_outcome {image : Image Float} (hscale : 0 < image.scale)
    (hwidth : image.width < 2 ^ 64) (hheight : image.height < 2 ^ 64) (x y value : Float) :
    (∃ i j, image.accumulate x y value = (image.addTo i j value, true) ∧
        Lands image.scale x i ∧ Lands image.scale y j) ∨
      image.accumulate x y value = (image, false) ∧
        (Misses image.scale image.width x ∨ Misses image.scale image.height y) := by
  rcases place?_outcome (x := x) hscale image.width_pos hwidth with
    ⟨i, hi, hlands⟩ | ⟨hnone, hmisses⟩
  · rcases place?_outcome (x := y) hscale image.height_pos hheight with
      ⟨j, hj, hlands'⟩ | ⟨hnone, hmisses⟩
    · left
      refine ⟨i, j, ?_, hlands, hlands'⟩
      rw [accumulate, pixelAt?, hi, hj]
      rfl
    · right
      refine ⟨?_, .inr hmisses⟩
      rw [accumulate, pixelAt?, hi, hnone]
      rfl
  · right
    refine ⟨?_, .inl hmisses⟩
    rw [accumulate, pixelAt?, hnone]
    rfl

/-- Four by four pixels without flux. -/
def fourByFour : Image Float := ⟨4, 4, 0.5, .constant 4 4 0, by decide, by decide⟩

/-- A point at infinity is refused. -/
theorem accumulate_outcome_infinite : blank 4 4 0.5 = .ok fourByFour ∧
    fourByFour.accumulate (1 / 0) 0.1 1 = (fourByFour, false) := by
  refine ⟨rfl, ?_⟩
  have hmisses : ∀ i : Fin 4, ¬Lands (0.5 : Float) (1 / 0) i := by
    intro i hlands
    cases hlands with
    | unmeasured hx => exact absurd hx (by decide)
    | endless hx => exact absurd hx (by decide)
    | inside hx => exact absurd (exists_denotes_iff.1 ⟨_, hx⟩) (by decide)
  rcases @accumulate_outcome fourByFour (by decide) (by decide) (by decide)
    (1 / 0) 0.1 1 with ⟨i, j, -, hlands, -⟩ | ⟨hrefused, -⟩
  · exact absurd hlands (hmisses i)
  · exact hrefused

/-- Flux that arrives at a point which is none changes the image. -/
theorem exists_accumulate_notANumber :
    ∃ (image : Image Float) (x : Float), blank 4 4 0.5 = .ok image ∧ x.isNaN = true ∧
      (image.accumulate x 0.1 1).2 = true ∧ (image.accumulate x 0.1 1).1 ≠ image := by
  refine ⟨fourByFour, 0 / 0, rfl, by decide, rfl, ?_⟩
  intro heq
  have hpixel := congrArg (fun image => (image.valueAt? 0 2).any (0 < ·)) heq
  exact absurd hpixel (by decide +kernel)

end Image

end Seeing
