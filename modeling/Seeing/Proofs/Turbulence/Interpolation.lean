import Seeing.Proofs.Turbulence.Reference

/-!
# The strength between the altitudes of a table

The strength that is looked up in a table in order is the function that a reader of the table would
draw, `PiecewiseLinear`: constant beyond the two ends, and a line between neighbours. Altitudes that
are repeated have no line between them, and the search never ends at such a pair, so nothing is
divided by zero: `Around.lt`. In a table without repeated altitudes the lines meet at the altitudes,
and the strength is continuous: `continuous_strengthAt`.
-/

namespace Seeing

namespace ReferenceProfile

section Line

variable {x₀ y₀ x₁ y₁ : ℝ}

theorem lineThrough_left : lineThrough x₀ y₀ x₁ y₁ x₀ = y₀ := by
  rw [lineThrough, sub_self, mul_zero, zero_div, add_zero]

theorem lineThrough_right (hx : x₀ < x₁) : lineThrough x₀ y₀ x₁ y₁ x₁ = y₁ := by
  rw [lineThrough, mul_div_cancel_right₀ _ (sub_pos.2 hx).ne']
  ring

theorem continuous_lineThrough : Continuous (lineThrough x₀ y₀ x₁ y₁) := by
  unfold lineThrough
  fun_prop

end Line

variable {p : ReferenceProfile ℝ} {h : ℝ} {k : ℕ}

/-- Constant beyond both ends of a table in order, and linear between neighbours around an altitude.
These are unique. Where all altitudes of a table are equal, the first weight is the one at that
altitude. -/
structure PiecewiseLinear (p : ReferenceProfile ℝ) (f : ℝ → ℝ) : Prop where
  length_pos : 0 < p.altitude.length
  length_eq : p.altitude.length = p.weight.length
  below : ∀ h ≤ p.altitude[0], f h = p.weight[0]
  above : ∀ h, p.altitude[0] < h → p.altitude[p.altitude.length - 1] ≤ h →
    f h = p.weight[p.altitude.length - 1]
  existsUnique_around : ∀ h, p.altitude[0] < h → h < p.altitude[p.altitude.length - 1] →
    ∃! k, p.Around k h
  line : ∀ h k (_ : k < p.altitude.length), p.altitude[0] < h → p.Around k h →
    f h = lineThrough p.altitude[k - 1] p.weight[k - 1] p.altitude[k] p.weight[k] h

section Ordered

variable (hp : p.Ordered)
include hp

theorem piecewiseLinear_strengthAt : p.PiecewiseLinear p.strengthAt := by
  have hpos : 0 < p.altitude.length := List.length_pos_of_ne_nil hp.ne_nil
  have hlength := hp.length_eq
  have hhead : p.altitude.head hp.ne_nil = p.altitude[0] := List.head_eq_getElem hp.ne_nil
  have hlast : p.altitude.getLast hp.ne_nil = p.altitude[p.altitude.length - 1] :=
    List.getLast_eq_getElem hp.ne_nil
  refine ⟨hpos, hlength, ?_, ?_, ?_, ?_⟩
  · intro h hh
    rw [strengthAt_of_le hp (hhead ▸ hh), List.head_eq_getElem]
  · intro h hfirst hbeyond
    rw [strengthAt_of_ge hp (hhead ▸ hfirst) (hlast ▸ hbeyond), List.getLast_eq_getElem]
    simp only [hlength]
  · intro h hfirst hbefore
    exact ⟨p.place h, around_place hp (hhead ▸ hfirst) (hlast ▸ hbefore),
      fun k hk => (hk.place_eq hp).symm⟩
  · intro h k hlt hfirst hk
    exact strengthAt_of_around hp (hhead ▸ hfirst) hk hlt (hlength ▸ hlt)

section Strict

variable (hstrict : p.altitude.Pairwise (· < ·))
include hstrict

omit hp in
theorem getElem_lt_getElem {i j : ℕ} (hij : i < j) (hj : j < p.altitude.length) :
    p.altitude[i] < p.altitude[j] :=
  List.pairwise_iff_getElem.1 hstrict i j _ hj hij

/-- The strength at an altitude of the table is the one beside it. -/
theorem strengthAt_getElem {i : ℕ} (hi : i < p.altitude.length) (hi' : i < p.weight.length) :
    p.strengthAt p.altitude[i] = p.weight[i] := by
  rcases Nat.eq_zero_or_pos i with rfl | hpos
  · rw [strengthAt_of_le hp (List.head_eq_getElem _).ge, List.head_eq_getElem]
  have hfirst : p.altitude.head hp.ne_nil < p.altitude[i] := by
    rw [List.head_eq_getElem]
    exact getElem_lt_getElem hstrict hpos hi
  by_cases hnext : i + 1 < p.altitude.length
  · -- the lower end of the line to the next altitude
    have haround : p.Around (i + 1) p.altitude[i] :=
      ⟨i.succ_pos, hnext, le_rfl, getElem_lt_getElem hstrict i.lt_succ_self hnext⟩
    rw [strengthAt_of_around hp hfirst haround hnext (hp.length_eq ▸ hnext)]
    exact lineThrough_left
  · obtain rfl : i = p.altitude.length - 1 := by omega
    rw [strengthAt_of_ge hp hfirst (List.getLast_eq_getElem _).le, List.getLast_eq_getElem]
    simp only [hp.length_eq]

/-- Both altitudes at the ends of a line are on it. -/
theorem strengthAt_of_mem_Icc (hlt : k + 1 < p.altitude.length) (hlt' : k + 1 < p.weight.length)
    (hh : h ∈ Set.Icc p.altitude[k] p.altitude[k + 1]) : p.strengthAt h =
      lineThrough p.altitude[k] p.weight[k] p.altitude[k + 1] p.weight[k + 1] h := by
  have hgap := getElem_lt_getElem hstrict k.lt_succ_self hlt
  rcases hh.1.eq_or_lt with rfl | hlow
  · rw [strengthAt_getElem hp hstrict, lineThrough_left]
  rcases hh.2.eq_or_lt with rfl | hhigh
  · rw [strengthAt_getElem hp hstrict hlt hlt', lineThrough_right hgap]
  · have hfirst : p.altitude.head hp.ne_nil < h :=
      (hp.sorted.rel_head (List.getElem_mem _)).trans_lt hlow
    exact strengthAt_of_around hp hfirst ⟨k.succ_pos, hlt, hlow.le, hhigh⟩ hlt hlt'

theorem strengthAt_of_getLast_le (hlast : p.altitude.getLast hp.ne_nil ≤ h) :
    p.strengthAt h = p.weight.getLast (weight_ne_nil hp) := by
  rcases hlast.eq_or_lt with rfl | hlt
  · have hend := strengthAt_getElem hp hstrict (i := p.altitude.length - 1)
      (Nat.sub_one_lt_of_lt (List.length_pos_of_ne_nil hp.ne_nil))
      (hp.length_eq ▸ Nat.sub_one_lt_of_lt (List.length_pos_of_ne_nil hp.ne_nil))
    rw [List.getLast_eq_getElem, hend, List.getLast_eq_getElem]
    simp only [hp.length_eq]
  · have hfirst := (hp.sorted.rel_head (List.getLast_mem hp.ne_nil)).trans_lt hlt
    exact strengthAt_of_ge hp hfirst hlast

/-- The lines of a table meet at its altitudes, and the outer ones at the constants beyond. -/
theorem continuous_strengthAt : Continuous p.strengthAt := by
  have hlow : ContinuousOn p.strengthAt (Set.Iic (p.altitude.head hp.ne_nil)) :=
    continuousOn_const.congr fun h hh => strengthAt_of_le hp hh
  have hhigh : ContinuousOn p.strengthAt (Set.Ici (p.altitude.getLast hp.ne_nil)) :=
    continuousOn_const.congr fun h hh => strengthAt_of_getLast_le hp hstrict hh
  let cell (k : Fin (p.altitude.length - 1)) : Set ℝ :=
    Set.Icc p.altitude[k.val] p.altitude[k.val + 1]
  have hclosed : ∀ k, IsClosed (cell k) := fun k => isClosed_Icc
  have hcells : ContinuousOn p.strengthAt (⋃ k, cell k) := by
    apply (locallyFinite_of_finite cell).continuousOn_iUnion hclosed
    intro k
    have hlt : k.val + 1 < p.altitude.length := by omega
    exact continuous_lineThrough.continuousOn.congr fun h hh =>
      strengthAt_of_mem_Icc hp hstrict hlt (hp.length_eq ▸ hlt) hh
  have hcover : Set.univ = Set.Iic (p.altitude.head hp.ne_nil) ∪
      Set.Ici (p.altitude.getLast hp.ne_nil) ∪ ⋃ k, cell k := by
    symm
    rw [Set.eq_univ_iff_forall]
    intro h
    rcases le_or_gt h (p.altitude.head hp.ne_nil) with hfirst | hfirst
    · exact .inl (.inl hfirst)
    rcases le_or_gt (p.altitude.getLast hp.ne_nil) h with hlast | hlast
    · exact .inl (.inr hlast)
    · obtain ⟨hpos, hlt, hbelow, habove⟩ := around_place hp hfirst hlast
      refine .inr (Set.mem_iUnion.2 ⟨⟨p.place h - 1, by omega⟩, hbelow, ?_⟩)
      simpa only [Nat.sub_add_cancel hpos] using habove.le
  rw [← continuousOn_univ, hcover]
  exact (hlow.union_of_isClosed hhigh isClosed_Iic isClosed_Ici).union_of_isClosed hcells
    (isClosed_Iic.union isClosed_Ici) (isClosed_iUnion_of_finite hclosed)

end Strict

/-- The strength lies between the smallest weight and the largest one. -/
theorem exists_strengthAt_mem_Icc : ∃ low high, IsLeast {w | w ∈ p.weight} low ∧
    IsGreatest {w | w ∈ p.weight} high ∧ ∀ h, p.strengthAt h ∈ Set.Icc low high := by
  have hsome : p.weight.toFinset.Nonempty := List.toFinset_nonempty_iff _ |>.2 (weight_ne_nil hp)
  have hleast := p.weight.toFinset.isLeast_min' hsome
  have hgreatest := p.weight.toFinset.isGreatest_max' hsome
  rw [List.coe_toFinset] at hleast hgreatest
  refine ⟨_, _, hleast, hgreatest, fun h => ?_⟩
  exact strengthAt_mem hp (convex_Icc _ _) (fun w hw => ⟨hleast.2 hw, hgreatest.2 hw⟩) h

end Ordered

/-- The lookup in a table that passes the check finds a strength at every altitude, and the strength
is the piecewise linear function through the table. The search ends at neighbours that differ. No
strength lies beyond the smallest and the largest weight. Without repeated altitudes the strength is
continuous and the one of the table at each of its altitudes. -/
theorem strengthAt_of_check (hcheck : p.check = .ok ()) :
    (∀ h, p.interpolate? h = some (p.strengthAt h)) ∧ p.PiecewiseLinear p.strengthAt ∧
      (∀ h k, p.Around k h → p.place h = k ∧ p.altitude[k]? ≠ p.altitude[k - 1]?) ∧
      (∃ low high, IsLeast {w | w ∈ p.weight} low ∧ IsGreatest {w | w ∈ p.weight} high ∧
        ∀ h, p.strengthAt h ∈ Set.Icc low high) ∧
      (p.altitude.Pairwise (· < ·) → Continuous p.strengthAt ∧
        ∀ i (_ : i < p.altitude.length) (_ : i < p.weight.length),
          p.strengthAt p.altitude[i] = p.weight[i]) := by
  obtain ⟨hp, -⟩ := check_eq_ok_iff.1 hcheck
  refine ⟨interpolate?_eq_strengthAt hp, piecewiseLinear_strengthAt hp, ?_,
    exists_strengthAt_mem_Icc hp, ?_⟩
  · intro h k hk
    refine ⟨hk.place_eq hp, ?_⟩
    rw [List.getElem?_eq_getElem hk.lt, List.getElem?_eq_getElem (by have := hk.lt; omega)]
    exact fun heq => (hk.altitude_lt hk.lt).ne' (Option.some.inj heq)
  · intro hstrict
    exact ⟨continuous_strengthAt hp hstrict, fun i => strengthAt_getElem hp hstrict⟩

/-- A table with a jump at the altitude of one kilometre. -/
def jump : ReferenceProfile ℝ := ⟨[0, 1, 1, 2], [5, 2, 10, 1]⟩

/-- Half-way up from the upper weight of the jump, and at the jump itself. The strength over Cerro
Pachon is continuous. -/
theorem strengthAt_of_check_jump :
    jump.check = .ok () ∧ jump.interpolate? (3 / 2) = some (11 / 2) ∧
      jump.interpolate? 1 = some 10 ∧
      (cerroPachon : ReferenceProfile ℝ).check = .ok () ∧
      Continuous (cerroPachon : ReferenceProfile ℝ).strengthAt ∧
      (cerroPachon : ReferenceProfile ℝ).strengthAt 2.58 = 0.172 := by
  have hjump : jump.check = .ok () := by
    refine check_eq_ok_iff.2 ⟨⟨by simp [jump], rfl, ?_⟩, ?_⟩
    · norm_num [jump]
    · norm_num [NonNegative, jump]
  have hstrict : (cerroPachon : ReferenceProfile ℝ).altitude.Pairwise (· < ·) := by
    norm_num [cerroPachon]
  have hcerro : (cerroPachon : ReferenceProfile ℝ).check = .ok () := by
    refine check_eq_ok_iff.2 ⟨⟨by simp [cerroPachon], rfl, hstrict.imp le_of_lt⟩, ?_⟩
    norm_num [NonNegative, cerroPachon]
  obtain ⟨hsome, hlinear, -⟩ := strengthAt_of_check hjump
  obtain ⟨-, -, -, -, hcontinuous⟩ := strengthAt_of_check hcerro
  obtain ⟨hcontinuous, hnode⟩ := hcontinuous hstrict
  refine ⟨hjump, ?_, ?_, hcerro, hcontinuous, ?_⟩
  · have hline := hlinear.line (3 / 2) 3 (by simp [jump]) (by norm_num [jump])
      ⟨by norm_num, by simp [jump], by norm_num [jump], by norm_num [jump]⟩
    rw [hsome, hline]
    norm_num [lineThrough, jump]
  · have hline := hlinear.line 1 3 (by simp [jump]) (by norm_num [jump])
      ⟨by norm_num, by simp [jump], by norm_num [jump], by norm_num [jump]⟩
    rw [hsome, hline]
    norm_num [lineThrough, jump]
  · have hvalue := hnode 1 (by simp [cerroPachon]) (by simp [cerroPachon])
    norm_num [cerroPachon] at hvalue ⊢
    exact hvalue

end ReferenceProfile

end Seeing
