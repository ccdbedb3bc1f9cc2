import Seeing.Proofs.Scalar.Rounding

/-!
# Machine numbers and the arithmetic of real numbers

A machine number of finite size denotes a real number, `Denotes`, and an operation on such numbers
rounds the result of the operation on these, `Rounds`: no machine number lies between the two, so
that a real number which is a machine number is kept, `Rounds.value_eq`, and results keep their
order, `Rounds.value_le`. This is so of quotients, sums and products, `rounds_div`, `rounds_add`,
`rounds_mul`, and of counts, `rounds_ofNat`. A result that is too large becomes an infinity. A bound
of a number is a bound of a sum also then: `le_value_add`, `value_add_le`.
-/

open Float.Model
open Float.Model.UnpackedFloat

namespace Seeing

namespace Machine

/-- The real number that a machine number of finite size stands for. -/
def Denotes (x : Float) (a : ℝ) : Prop := DenotesKind x.toModel.unpack a

/-- What a number with a significand of fifty three bits is as a machine number. -/
inductive Packed (b : ℝ) (x : Float) : Prop where
  /-- The number itself. -/
  | finite (hx : Denotes x b)
  /-- Infinite, as it is above all machine numbers. -/
  | above (hb : ∀ c, Representable c → c < b) (hx : value x = ⊤)
  /-- Negative infinite, as it is below all machine numbers. -/
  | below (hb : ∀ c, Representable c → b < c) (hx : value x = ⊥)

/-- The machine number is a real number, rounded up or down to a nearest number and packed. -/
structure Rounds (a : ℝ) (x : Float) : Prop where
  isNaN : x.isNaN = false
  packed : ∃ b, Floating b ∧ Faithful a b ∧ Packed b x

variable {x y : Float} {a b : ℝ}

section Denotes

theorem DenotesKind.valueOf_eq {f : UnpackedFloat} (h : DenotesKind f a) : valueOf f = a := by
  cases h with
  | zero s => rfl
  | finite s m e hm => rfl

theorem Denotes.value_eq (h : Denotes x a) : value x = a := DenotesKind.valueOf_eq h

theorem Denotes.isNaN (h : Denotes x a) : x.isNaN = false := by
  rw [Float.isNaN, Float.Model.isNaN]
  cases hx : x.toModel.unpack <;> rw [Denotes, hx] at h <;> first | rfl | cases h

theorem Denotes.unique (h : Denotes x a) (h' : Denotes x b) : a = b :=
  EReal.coe_eq_coe_iff.1 (h.value_eq.symm.trans h'.value_eq)

theorem exists_denotes_iff : (∃ a, Denotes x a) ↔ x.isFinite = true := by
  rw [Float.isFinite, Float.Model.isFinite]
  constructor
  · rintro ⟨a, ha⟩
    cases hx : x.toModel.unpack <;> rw [Denotes, hx] at ha <;> first | rfl | cases ha
  · intro hfinite
    cases hx : x.toModel.unpack <;> rw [hx] at hfinite
    · cases hfinite
    · cases hfinite
    · exact ⟨0, by rw [Denotes, hx]; exact .zero _⟩
    · exact ⟨_, by rw [Denotes, hx]; exact .finite _ _ _ _⟩

theorem denotes_or_infinity (hx : x.isNaN = false) :
    (∃ a, Denotes x a) ∨ ∃ s, x.toModel.unpack = .infinity s := by
  rw [exists_denotes_iff, Float.isFinite, Float.Model.isFinite]
  rw [Float.isNaN, Float.Model.isNaN] at hx
  cases hkind : x.toModel.unpack with
  | infinity s => exact .inr ⟨s, rfl⟩
  | notANumber => rw [hkind] at hx; cases hx
  | _ => exact .inl rfl

theorem isNaN_or_isInf_or_denotes (x : Float) :
    x.isNaN = true ∨ x.isInf = true ∨ ∃ a, Denotes x a := by
  cases hnan : x.isNaN with
  | true => exact .inl rfl
  | false =>
      rcases denotes_or_infinity hnan with hfinite | hinfinite
      · exact .inr (.inr hfinite)
      · exact .inr (.inl (isInf_iff.2 hinfinite))

theorem denotes_iff : Denotes x a ↔ x.isNaN = false ∧ value x = a := by
  constructor
  · exact fun h => ⟨h.isNaN, h.value_eq⟩
  · rintro ⟨hnan, hvalue⟩
    have hfinite : x.isFinite = true := by
      rw [Float.isNaN, Float.Model.isNaN] at hnan
      rw [value] at hvalue
      rw [Float.isFinite, Float.Model.isFinite]
      cases hx : x.toModel.unpack with
      | infinity s => rw [hx] at hvalue; cases s <;> simp [valueOf] at hvalue
      | notANumber => rw [hx] at hnan; cases hnan
      | _ => rfl
    obtain ⟨b, hb⟩ := exists_denotes_iff.2 hfinite
    obtain rfl : b = a := EReal.coe_eq_coe_iff.1 (hb.value_eq.symm.trans hvalue)
    exact hb

theorem Denotes.representable (h : Denotes x a) : Representable a := by
  cases hx : x.toModel.unpack with
  | infinity s => rw [Denotes, hx] at h; cases h
  | notANumber => rw [Denotes, hx] at h; cases h
  | zero s => rw [Denotes, hx] at h; cases h; exact representable_zero
  | finite s m e hm =>
      obtain ⟨hcanonical, he⟩ := canonical_of_unpack hx
      rw [Denotes, hx] at h
      cases h
      refine ⟨m, e, hcanonical, he, ?_⟩
      rw [abs_mul, abs_of_pos (by positivity : (0 : ℝ) < 2 ^ e)]
      cases s <;> simp [apply_negative, apply_positive]

theorem Denotes.le_iff (hx : Denotes x a) (hy : Denotes y b) : x ≤ y ↔ a ≤ b := by
  rw [le_iff_value_le hx.isNaN hy.isNaN, hx.value_eq, hy.value_eq, EReal.coe_le_coe_iff]

theorem Denotes.le_of_value_le (hx : Denotes x a) (hy : Denotes y b) (hle : value x ≤ value y) :
    a ≤ b := by
  rwa [hx.value_eq, hy.value_eq, EReal.coe_le_coe_iff] at hle

theorem Denotes.lt_iff (hx : Denotes x a) (hy : Denotes y b) : x < y ↔ a < b := by
  rw [lt_iff_value_lt hx.isNaN hy.isNaN, hx.value_eq, hy.value_eq, EReal.coe_lt_coe_iff]

theorem Denotes.beq_iff (hx : Denotes x a) (hy : Denotes y b) : (x == y) = true ↔ a = b := by
  rw [beq_iff_value_eq hx.isNaN hy.isNaN, hx.value_eq, hy.value_eq, EReal.coe_eq_coe_iff]

theorem value_of_isZero (hx : isZero x = true) : value x = 0 := by
  rw [isZero] at hx
  rw [value]
  cases hkind : x.toModel.unpack <;> rw [hkind] at hx <;> first | rfl | cases hx

/-- What is no less than a real number and no more than another one is of finite size. -/
theorem exists_denotes_of_le_value (hx : x.isNaN = false) {low high : ℝ} (hlow : low ≤ value x)
    (hhigh : value x ≤ high) : ∃ b, Denotes x b ∧ low ≤ b ∧ b ≤ high := by
  rcases denotes_or_infinity hx with ⟨b, hb⟩ | ⟨s, hkind⟩
  · rw [hb.value_eq, EReal.coe_le_coe_iff] at hlow hhigh
    exact ⟨b, hb, hlow, hhigh⟩
  · rcases value_infinity_cases hkind with hvalue | hvalue
    · rw [hvalue] at hlow
      exact absurd hlow (not_le.2 (EReal.bot_lt_coe low))
    · rw [hvalue] at hhigh
      exact absurd hhigh (not_le.2 (EReal.coe_lt_top high))

/-- Two machine numbers that denote the same are the same, unless they are zeros. -/
theorem Denotes.eq_or_eq_zero (hx : Denotes x a) (hy : Denotes y a) : x = y ∨ a = 0 := by
  refine (eq_or_isZero_of_beq ((hx.beq_iff hy).2 rfl)).imp_right fun hzero => ?_
  exact EReal.coe_eq_zero.1 (hx.value_eq.symm.trans (value_of_isZero hzero.1))

end Denotes

section Rounds

/-- A bound that is a machine number bounds what is rounded. -/
theorem Rounds.le (h : Rounds a x) (c : ℝ) (hc : Representable c) (hca : c ≤ a) :
    (c : EReal) ≤ value x := by
  obtain ⟨b, -, hfaithful, hx | ⟨-, hx⟩ | ⟨hb, -⟩⟩ := h.packed
  · rw [hx.value_eq, EReal.coe_le_coe_iff]
    exact hfaithful.le c hc.floating hca
  · rw [hx]
    exact le_top
  · exact absurd (hfaithful.le c hc.floating hca) (not_le.2 (hb c hc))

theorem Rounds.ge (h : Rounds a x) (c : ℝ) (hc : Representable c) (hac : a ≤ c) :
    value x ≤ c := by
  obtain ⟨b, -, hfaithful, hx | ⟨hb, -⟩ | ⟨-, hx⟩⟩ := h.packed
  · rw [hx.value_eq, EReal.coe_le_coe_iff]
    exact hfaithful.ge c hc.floating hac
  · exact absurd (hfaithful.ge c hc.floating hac) (not_le.2 (hb c hc))
  · rw [hx]
    exact bot_le

/-- An exponent that is too large is packed as an infinity. -/
theorem packed_of_lt {s : Sign} {m : ℕ} {e : ℤ} (hcanonical : Canonical m e) (he : 971 < e)
    (hx : x.toModel.unpack = .infinity s) : Packed ((s.apply m : ℤ) * 2 ^ e) x := by
  have hvalue : value x = valueOf (.infinity s) := by rw [value, hx]
  have hlarge := fun c (hc : Representable c) => abs_lt.1 (hc.abs_lt hcanonical he)
  cases s with
  | negative =>
      rw [apply_negative, Int.cast_neg, Int.cast_natCast, neg_mul]
      exact .below (fun c hc => (hlarge c hc).1) hvalue
  | positive =>
      rw [apply_positive, Int.cast_natCast]
      exact .above (fun c hc => (hlarge c hc).2) hvalue

theorem packed_of_kind {f : UnpackedFloat} (hcanonical : CanonicalKind f) (hb : DenotesKind f b)
    (hx : x.toModel.unpack = (Float.Model.pack f).unpack) : Packed b x := by
  have hdenotes : (Float.Model.pack f).unpack = f → Packed b x := by
    intro hkind
    refine .finite ?_
    rwa [Denotes, hx, hkind]
  cases hb with
  | zero s => exact hdenotes (by cases s <;> rfl)
  | finite s m e hm =>
      rcases le_or_gt e 971 with he | he
      · exact hdenotes (unpack_pack_of_canonical s hm hcanonical he)
      · rw [unpack_pack_of_lt s hm he] at hx
        exact packed_of_lt hcanonical he hx

theorem DenotesKind.floating {f : UnpackedFloat} (h : DenotesKind f a)
    (hcanonical : CanonicalKind f) : Floating a := by
  cases h with
  | zero s => exact representable_zero.floating
  | finite s m e hm =>
      refine ⟨m, e, hcanonical, ?_⟩
      rw [abs_mul, abs_of_pos (by positivity : (0 : ℝ) < 2 ^ e)]
      cases s <;> simp [apply_negative, apply_positive]

/-- A kind that is rounded is packed to a machine number that is. -/
theorem RoundsKind.rounds {f : UnpackedFloat} (h : RoundsKind a f)
    (hx : x.toModel.unpack = (Float.Model.pack f).unpack) : Rounds a x := by
  obtain ⟨hcanonical, b, hb, hfaithful⟩ := h
  refine ⟨?_, b, hb.floating hcanonical, hfaithful, packed_of_kind hcanonical hb hx⟩
  rw [Float.isNaN, Float.Model.isNaN, hx, isNaN_unpack_pack]
  cases hb <;> rfl

theorem Denotes.rounds (h : Denotes x a) : Rounds a x :=
  ⟨h.isNaN, a, h.representable.floating, .refl a, .finite h⟩

/-- What is a machine number is kept. -/
theorem Rounds.value_eq (h : Rounds a x) (ha : Representable a) : value x = a :=
  le_antisymm (h.ge a ha le_rfl) (h.le a ha le_rfl)

theorem Rounds.denotes (h : Rounds a x) (ha : Representable a) : Denotes x a :=
  denotes_iff.2 ⟨h.isNaN, h.value_eq ha⟩

/-- A real number between two machine numbers is rounded to one between them. -/
theorem Rounds.exists_denotes (h : Rounds a x) {low high : ℝ} (hlow : Representable low)
    (hhigh : Representable high) (hla : low ≤ a) (hah : a ≤ high) :
    ∃ b, Denotes x b ∧ low ≤ b ∧ b ≤ high :=
  exists_denotes_of_le_value h.isNaN (h.le low hlow hla) (h.ge high hhigh hah)

/-- Results keep their order. Equal ones that are no machine numbers have to be rounded alike. -/
theorem Rounds.value_le (hx : Rounds a x) (hy : Rounds b y) (hab : a ≤ b)
    (htie : a = b → x = y ∨ Representable a) : value x ≤ value y := by
  rcases hab.lt_or_eq with hlt | rfl
  · obtain ⟨c, hc, hfaithful, hx⟩ := hx.packed
    obtain ⟨d, hd, hfaithful', hy⟩ := hy.packed
    have hcd : c ≤ d := hfaithful.le_of_lt hfaithful' hc hd hlt
    cases hx with
    | finite hx =>
        cases hy with
        | finite hy =>
            rw [hx.value_eq, hy.value_eq, EReal.coe_le_coe_iff]
            exact hcd
        | above _ hy =>
            rw [hy]
            exact le_top
        | below hd => exact absurd hcd (not_le.2 (hd c hx.representable))
    | above hc hx =>
        cases hy with
        | finite hy => exact absurd hcd (not_le.2 (hc d hy.representable))
        | above _ hy => rw [hx, hy]
        | below hd =>
            exact absurd hcd
              (not_le.2 ((hd 0 representable_zero).trans (hc 0 representable_zero)))
    | below _ hx =>
        rw [hx]
        exact bot_le
  · rcases htie rfl with rfl | ha
    · exact le_rfl
    · rw [hx.value_eq ha, hy.value_eq ha]

end Rounds

section Operations

theorem rounds_div (hx : Denotes x a) (hy : Denotes y b) (hb : b ≠ 0) : Rounds (a / b) (x / y) :=
  (roundsKind_div hx hy hb).rounds rfl

theorem rounds_add (hx : Denotes x a) (hy : Denotes y b) : Rounds (a + b) (x + y) :=
  (roundsKind_add hx hy (canonicalKind_unpack x) (canonicalKind_unpack y)).rounds rfl

theorem rounds_sub (hx : Denotes x a) (hy : Denotes y b) : Rounds (a - b) (x - y) := by
  rw [sub_eq_add_neg]
  exact (roundsKind_add hx (DenotesKind.neg hy) (canonicalKind_unpack x)
    (canonicalKind_unpack y).neg).rounds
    (congrArg (fun f => (Float.Model.pack f).unpack) (sub_eq_add_neg_kind _ _))

theorem rounds_mul (hx : Denotes x a) (hy : Denotes y b) : Rounds (a * b) (x * y) :=
  (roundsKind_mul hx hy (canonicalKind_unpack x) (canonicalKind_unpack y)).rounds rfl

section Order

variable {z : Float} {c : ℝ} (hx : Denotes x a) (hy : Denotes y b) (hz : Denotes z c) (hab : a ≤ b)

include hx hy hz hab

theorem value_div_mono (hc : 0 < c) : value (x / z) ≤ value (y / z) := by
  refine (rounds_div hx hz hc.ne').value_le (rounds_div hy hz hc.ne')
    (div_le_div_of_nonneg_right hab hc.le) fun htie => ?_
  obtain rfl := (div_left_inj' hc.ne').1 htie
  refine (hx.eq_or_eq_zero hy).imp (congrArg (· / z)) ?_
  rintro rfl
  rw [zero_div]
  exact representable_zero

theorem value_mul_mono (hc : 0 ≤ c) : value (z * x) ≤ value (z * y) := by
  refine (rounds_mul hz hx).value_le (rounds_mul hz hy) (mul_le_mul_of_nonneg_left hab hc)
    fun htie => ?_
  rcases mul_eq_mul_left_iff.1 htie with rfl | rfl
  · refine (hx.eq_or_eq_zero hy).imp (congrArg (z * ·)) ?_
    rintro rfl
    rw [mul_zero]
    exact representable_zero
  · right
    rw [zero_mul]
    exact representable_zero

theorem value_add_mono : value (x + z) ≤ value (y + z) := by
  refine (rounds_add hx hz).value_le (rounds_add hy hz) (add_le_add_left hab c) fun htie => ?_
  obtain rfl := add_right_cancel htie
  refine (hx.eq_or_eq_zero hy).imp (congrArg (· + z)) ?_
  rintro rfl
  rw [zero_add]
  exact hz.representable

theorem value_sub_mono : value (x - z) ≤ value (y - z) := by
  refine (rounds_sub hx hz).value_le (rounds_sub hy hz) (sub_le_sub_right hab c) fun htie => ?_
  obtain rfl := sub_left_injective htie
  refine (hx.eq_or_eq_zero hy).imp (congrArg (· - z)) ?_
  rintro rfl
  rw [zero_sub]
  exact hz.representable.neg

end Order

theorem Denotes.neg (h : Denotes x a) : Denotes (-x) (-a) :=
  (RoundsKind.rounds ⟨(canonicalKind_unpack x).neg, -a, DenotesKind.neg h, .refl _⟩ rfl).denotes
    h.representable.neg

theorem Denotes.abs (h : Denotes x a) : Denotes x.abs |a| := by
  refine (RoundsKind.rounds ⟨(canonicalKind_unpack x).abs, |a|, DenotesKind.abs h, .refl _⟩
    rfl).denotes ?_
  rcases abs_choice a with ha | ha <;> rw [ha]
  · exact h.representable
  · exact h.representable.neg

end Operations

section Infinities

theorem unpack_div_of_infinity {s : Sign} (hx : x.toModel.unpack = .infinity s)
    (hy : Denotes y b) : ∃ s', (x / y).toModel.unpack = .infinity s' := by
  have hdiv : ∃ s', UnpackedFloat.div Format.binary64 x.toModel.unpack y.toModel.unpack =
      .infinity s' := by
    rw [hx]
    cases hkind : y.toModel.unpack <;> rw [Denotes, hkind] at hy <;>
      first | exact ⟨_, rfl⟩ | cases hy
  obtain ⟨s', hdiv⟩ := hdiv
  refine ⟨s', ?_⟩
  change (Float.Model.pack (UnpackedFloat.div Format.binary64 _ _)).unpack = _
  rw [hdiv, unpack_pack_infinity]

theorem denotes_div_of_infinity {s : Sign} (hx : Denotes x a)
    (hy : y.toModel.unpack = .infinity s) : Denotes (x / y) 0 := by
  have hround : Rounds 0 (x / y) := by
    refine (roundsKind_div_infinity hx s).rounds ?_
    rw [← hy]
    rfl
  exact hround.denotes representable_zero

/-- An infinity stays one. -/
theorem unpack_add_of_infinity {s : Sign} (hx : x.toModel.unpack = .infinity s) (hy : Denotes y b) :
    (x + y).toModel.unpack = .infinity s := by
  have hadd : UnpackedFloat.add Format.binary64 x.toModel.unpack y.toModel.unpack =
      .infinity s := by
    rw [hx]
    cases hkind : y.toModel.unpack <;> rw [Denotes, hkind] at hy <;> first | rfl | cases hy
  change (Float.Model.pack (UnpackedFloat.add Format.binary64 _ _)).unpack = _
  rw [hadd, unpack_pack_infinity]

theorem value_add_of_infinity {s : Sign} (hx : x.toModel.unpack = .infinity s)
    (hy : Denotes y b) : value (x + y) = value x := by
  rw [value, value, hx, unpack_add_of_infinity hx hy]

theorem isNaN_add_of_denotes (hx : x.isNaN = false) (hy : Denotes y b) : (x + y).isNaN = false := by
  rcases denotes_or_infinity hx with ⟨a, ha⟩ | ⟨s, hkind⟩
  · exact (rounds_add ha hy).isNaN
  · rw [Float.isNaN, Float.Model.isNaN, unpack_add_of_infinity hkind hy]
    rfl

/-- A bound of a number is one of the sum, if the sum of the bound is a machine number. -/
theorem le_value_add (hx : x.isNaN = false) (hy : Denotes y b) (hle : (a : EReal) ≤ value x)
    (hab : Representable (a + b)) : ((a + b : ℝ) : EReal) ≤ value (x + y) := by
  rcases denotes_or_infinity hx with ⟨c, hc⟩ | ⟨s, hkind⟩
  · rw [hc.value_eq, EReal.coe_le_coe_iff] at hle
    exact (rounds_add hc hy).le _ hab (by linarith)
  · rw [value_add_of_infinity hkind hy]
    rcases value_infinity_cases hkind with hvalue | hvalue <;> rw [hvalue] at hle ⊢
    · exact absurd hle (not_le.2 (EReal.bot_lt_coe a))
    · exact le_top

theorem value_add_le (hx : x.isNaN = false) (hy : Denotes y b) (hle : value x ≤ (a : EReal))
    (hab : Representable (a + b)) : value (x + y) ≤ ((a + b : ℝ) : EReal) := by
  rcases denotes_or_infinity hx with ⟨c, hc⟩ | ⟨s, hkind⟩
  · rw [hc.value_eq, EReal.coe_le_coe_iff] at hle
    exact (rounds_add hc hy).ge _ hab (by linarith)
  · rw [value_add_of_infinity hkind hy]
    rcases value_infinity_cases hkind with hvalue | hvalue <;> rw [hvalue] at hle ⊢
    · exact bot_le
    · exact absurd hle (not_le.2 (EReal.coe_lt_top a))

end Infinities

section Counts

/-- A count of up to sixty four bits is rounded to a number of finite size, and a positive one to no
less than one. -/
theorem Rounds.exists_denotes_count {n : ℕ} (h : Rounds n x) (hn : n < 2 ^ 64) :
    ∃ b, Denotes x b ∧ 0 ≤ b ∧ (0 < n → 1 ≤ b) := by
  have hlarge : Representable ((1 : ℕ) * 2 ^ (64 : ℤ)) :=
    representable_mul_zpow (by decide) (by decide) (by decide)
  have hhigh : (n : ℝ) ≤ (1 : ℕ) * 2 ^ (64 : ℤ) := by
    norm_num
    exact_mod_cast hn.le
  have hsmall : Representable (min n 1 : ℕ) := representable_natCast (by omega)
  have hlow : ((min n 1 : ℕ) : ℝ) ≤ n := by exact_mod_cast min_le_left n 1
  obtain ⟨b, hb, hle, -⟩ := h.exists_denotes hsmall hlarge hlow hhigh
  refine ⟨b, hb, (Nat.cast_nonneg _).trans hle, fun hpos => ?_⟩
  rwa [min_eq_right (Nat.succ_le_of_lt hpos), Nat.cast_one] at hle

/-- A short count is taken as it is. -/
theorem toModel_ofNat {n : ℕ} (hn : n < 2 ^ 53) : (ofNat n).toModel =
    Float.Model.pack (UnpackedFloat.normalize Format.binary64 n 0 .positive) := by
  have hconvert : (ofNat n).toModel = Float.Model.pack
      (UnpackedFloat.normalize Format.binary64 (n.toUInt64.toNat : ℤ) 0 .positive) := by
    rw [ofNat, if_pos (by simpa using hn)]
    rfl
  have hword : n.toUInt64.toNat = n := by
    simp
    omega
  rw [hconvert, hword]

theorem toModel_ofNat_of_le {n : ℕ} (hn : 2 ^ 53 ≤ n) :
    (ofNat n).toModel = Float.Model.pack (roundWithAccuracy Format.binary64 .positive
      ((n <<< 53) * 1) (-53 + 0) .exact) := by
  have hne : n ≠ 0 := by omega
  rw [ofNat, if_neg (by simpa using hn), Float.ofNat]
  change (Float.ofScientific n false 0).toModel = _
  rw [Float.ofScientific, dif_neg (by omega)]
  change Float.Model.pack (UnpackedFloat.ofScientific Format.binary64 n 0) = _
  have hsmall : ¬(0 : ℤ) < -((2 : ℤ) ^ 11 + n.log2) := by omega
  rw [UnpackedFloat.ofScientific, dif_neg hne, if_neg (by decide), if_neg hsmall,
    if_pos le_rfl]
  rfl

theorem rounds_ofNat (n : ℕ) : Rounds n (ofNat n) := by
  rcases lt_or_ge n (2 ^ 53) with hn | hn
  · have hround := normalize_rounds n 0 .positive
    rw [zpow_zero, mul_one, Int.cast_natCast] at hround
    exact hround.rounds (congrArg Float.Model.unpack (toModel_ofNat hn))
  · have hlong : 52 ≤ ((n <<< 53) * 1).log2 ∨ (-53 + 0 : ℤ) ≤ -1074 := by
      left
      rw [mul_one, log2_shiftLeft (by omega)]
      omega
    have hround := roundWithAccuracy_rounds .positive (describes_exact ((n <<< 53) * 1) (-53 + 0))
      hlong
    have hvalue : ((Sign.positive.apply 1 : ℤ) : ℝ) *
        (((n <<< 53) * 1 : ℕ) * 2 ^ (-53 + 0 : ℤ)) = n := by
      rw [apply_positive, mul_one, Nat.shiftLeft_eq, Nat.cast_mul, Int.cast_one, one_mul, mul_assoc]
      norm_num
    rw [hvalue] at hround
    exact hround.rounds (congrArg Float.Model.unpack (toModel_ofNat_of_le hn))

theorem isZero_ofNat_zero : isZero (ofNat 0) = true := by decide

/-- A positive count of up to sixty four bits is a number of finite size other than
zero. -/
theorem kind_ofNat {n : ℕ} (hpos : 0 < n) (hn : n < 2 ^ 64) :
    (ofNat n).isFinite = true ∧ isZero (ofNat n) = false := by
  obtain ⟨b, hb, -, hone⟩ := (rounds_ofNat n).exists_denotes_count hn
  refine ⟨exists_denotes_iff.1 ⟨b, hb⟩, ?_⟩
  by_contra hzero
  have hvalue := value_of_isZero (by simpa using hzero)
  rw [hb.value_eq, EReal.coe_eq_zero] at hvalue
  linarith [hone hpos]

end Counts

end Machine

end Seeing
