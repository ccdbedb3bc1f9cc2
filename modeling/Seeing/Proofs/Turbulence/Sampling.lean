import Seeing.Proofs.Random
import Seeing.Proofs.Turbulence.Reference
import Seeing.Turbulence.Profile

/-!
# Sampled turbulence profiles

A profile sampled from a table has one altitude, one fraction and one wind for each layer,
`Matched`, and random winds keep it so. The sampling of a table in order never fails,
`sample?_eq`, so it is its checks that decide whether there is a profile, one after the
other, and the fractions are the strengths of the table divided by their sum.
-/

namespace Seeing

namespace TurbulenceProfile

/-- Every list has one value for each layer. -/
structure Matched {α : Type} (p : TurbulenceProfile α) : Prop where
  altitude : p.altitude.length = p.layerCount
  weight : p.weight.length = p.layerCount
  windSpeed : p.windSpeed.length = p.layerCount
  windDirection : p.windDirection.length = p.layerCount

theorem check_eq_ok_iff {α : Type} {p : TurbulenceProfile α} :
    p.check = .ok () ↔ p.Matched := by
  have hlists : p.check = .ok () ↔
      ([(p.altitude.length, LayerQuantity.altitude), (p.weight.length, .weight),
        (p.windSpeed.length, .windSpeed), (p.windDirection.length, .windDirection)].find?
          (·.1 != p.layerCount)) = none := by
    rw [check]
    generalize List.find? _ _ = faulty
    cases faulty <;> simp
  rw [hlists, List.find?_eq_none]
  constructor
  · intro h
    exact ⟨by simpa using h _ (.head _), by simpa using h _ (.tail _ (.head _)),
      by simpa using h _ (.tail _ (.tail _ (.head _))),
      by simpa using h _ (.tail _ (.tail _ (.tail _ (.head _))))⟩
  · rintro ⟨haltitude, hweight, hspeed, hdirection⟩
    simp [haltitude, hweight, hspeed, hdirection]

section Winds

variable {α : Type} [Scalar α] [RandomSource α]

/-- The profile after random winds, one after the other, each with a bound of its speed. -/
def randomWinds (maxSpeeds : List α) (p : TurbulenceProfile α) :
    StateM (RandomSource.State α) (TurbulenceProfile α) :=
  maxSpeeds.foldlM (fun p maxSpeed => randomWind maxSpeed p) p

/-- A random wind leaves the layers as they are and has one wind for each of them. -/
theorem fst_randomWind (maxSpeed : α) (p : TurbulenceProfile α) (s : RandomSource.State α) :
    ∃ speeds directions, speeds.length = p.layerCount ∧ directions.length = p.layerCount ∧
      (randomWind maxSpeed p s).1 =
        { p with windSpeed := speeds, windDirection := directions } := by
  let winds := (drawMany p.layerCount (drawWind maxSpeed) s).1
  have hwinds : winds.toList.length = p.layerCount := size_drawMany _ _ s
  exact ⟨winds.toList.map (·.1), winds.toList.map (·.2), by rw [List.length_map, hwinds],
    by rw [List.length_map, hwinds], rfl⟩

theorem fst_randomWinds (maxSpeeds : List α) {p : TurbulenceProfile α} (hp : p.Matched)
    (s : RandomSource.State α) :
    ∃ speeds directions,
      (randomWinds maxSpeeds p s).1 = { p with windSpeed := speeds, windDirection := directions } ∧
        (randomWinds maxSpeeds p s).1.Matched := by
  induction maxSpeeds generalizing p s with
  | nil => exact ⟨_, _, rfl, hp⟩
  | cons maxSpeed maxSpeeds ih =>
      obtain ⟨speeds, directions, hspeeds, hdirections, hwind⟩ := fst_randomWind maxSpeed p s
      have hmatched : (randomWind maxSpeed p s).1.Matched := by
        rw [hwind]
        exact ⟨hp.altitude, hp.weight, hspeeds, hdirections⟩
      obtain ⟨speeds', directions', heq, hrest⟩ := ih hmatched (randomWind maxSpeed p s).2
      refine ⟨speeds', directions', ?_, hrest⟩
      refine heq.trans ?_
      rw [hwind]

end Winds

section Refused

variable {α : Type} [Scalar α] {reference : ReferenceProfile α} {count : ℕ}

theorem ofReference_of_fault {fault : ReferenceFault} (hcheck : reference.check = .error fault) :
    ofReference reference count = .error (.error (.reference fault)) := by
  rw [ofReference, hcheck]

theorem ofReference_of_lt (hcheck : reference.check = .ok ()) (hcount : count < 2) :
    ofReference reference count = .error (.error (.layerCount count)) := by
  rw [ofReference, hcheck]
  simp only [if_pos hcount]

end Refused

section Sample

variable {reference : ReferenceProfile ℝ} {top : ℝ} {count : ℕ}

theorem getElem?_spacedAltitudes (top : ℝ) {i : ℕ} (hi : i < count) :
    (spacedAltitudes top count)[i]? = some (top * i / (count - 1)) := by
  rw [spacedAltitudes, List.getElem?_map, List.getElem?_range hi, Option.map_some,
    Scalar.real_ofNat, Scalar.real_ofNat, Nat.cast_pred (by omega)]

theorem length_spacedAltitudes (top : ℝ) (count : ℕ) :
    (spacedAltitudes top count).length = count := by
  simp [spacedAltitudes]

/-- The strengths of the layers, from the ground up. -/
noncomputable def strengths (reference : ReferenceProfile ℝ) (top : ℝ) (count : ℕ) : List ℝ :=
  (spacedAltitudes top count).map reference.strengthAt

/-- A table in order has a strength at every altitude, so all layers can be sampled. -/
theorem sample?_eq (hp : reference.Ordered) (htop : reference.maxAltitude? = some top)
    (count : ℕ) :
    sample? reference count =
      some (spacedAltitudes top count, strengths reference top count) := by
  have hstrength : reference.interpolate? = fun h => pure (reference.strengthAt h) :=
    funext fun h => ReferenceProfile.interpolate?_eq_strengthAt hp h
  rw [sample?, htop, hstrength]
  simp only [List.mapM_pure]
  rfl

theorem strengths_nonneg (hp : reference.Ordered) (hweight : reference.NonNegative) :
    ∀ w ∈ strengths reference top count, 0 ≤ w := by
  intro w hw
  obtain ⟨h, -, rfl⟩ := List.mem_map.1 hw
  exact ReferenceProfile.strengthAt_nonneg hp hweight h

/-- After the checks of the table and of the number of layers, it is the sum of the
strengths that decides. -/
theorem ofReference_eq_ite (hp : reference.Ordered) (hweight : reference.NonNegative)
    (htop : reference.maxAltitude? = some top) (hcount : 2 ≤ count) :
    ofReference reference count =
      if 0 < (strengths reference top count).sum then
        .ok (normalized (spacedAltitudes top count) (strengths reference top count))
      else .error (.error (.reference .weights)) := by
  rw [ofReference, ReferenceProfile.check_of_ordered hp hweight, sample?_eq hp htop]
  simp only [if_neg hcount.not_gt, Failure.ofOption, bind, Except.bind, Scalar.real_lt,
    Scalar.real_zero, Scalar.sumList_eq_sum]

theorem strengths_eq_map (reference : ReferenceProfile ℝ) (top : ℝ) (count : ℕ) :
    strengths reference top count =
      (List.range count).map fun i : ℕ => reference.strengthAt (top * i / (count - 1 : ℕ)) := by
  simp [strengths, spacedAltitudes]

theorem sum_strengths_pos_iff (hp : reference.Ordered) (hweight : reference.NonNegative)
    (hcount : 2 ≤ count) :
    0 < (strengths reference top count).sum ↔
      ∃ i < count, reference.interpolate? (top * i / (count - 1)) ≠ some 0 := by
  have hsum : (strengths reference top count).sum =
      ∑ i ∈ Finset.range count, reference.strengthAt (top * i / (count - 1 : ℕ)) := by
    rw [strengths_eq_map]
    rfl
  have hnonneg := ReferenceProfile.strengthAt_nonneg hp hweight
  rw [hsum, Finset.sum_pos_iff_of_nonneg fun i _ => hnonneg _, Nat.cast_pred (by omega)]
  constructor
  · rintro ⟨i, hi, hpos⟩
    refine ⟨i, Finset.mem_range.1 hi, ?_⟩
    rw [ReferenceProfile.interpolate?_eq_strengthAt hp, ne_eq, Option.some.injEq]
    exact hpos.ne'
  · rintro ⟨i, hi, hne⟩
    refine ⟨i, Finset.mem_range.2 hi, (hnonneg _).lt_of_ne ?_⟩
    rintro hzero
    rw [ReferenceProfile.interpolate?_eq_strengthAt hp, ← hzero] at hne
    exact hne rfl

/-- Some layer has turbulence when `count` of them are sampled from a table. -/
def HasTurbulence (reference : ReferenceProfile ℝ) (count : ℕ) : Prop :=
  ∃ top, IsGreatest {h | h ∈ reference.altitude} top ∧
    ∃ i < count, reference.interpolate? (top * i / (count - 1)) ≠ some 0

theorem hasTurbulence_iff (hp : reference.Ordered) (hweight : reference.NonNegative)
    (htop : reference.maxAltitude? = some top) (hcount : 2 ≤ count) :
    HasTurbulence reference count ↔ 0 < (strengths reference top count).sum := by
  have hgreatest := ReferenceProfile.maxAltitude?_eq_some_iff.1 htop
  rw [sum_strengths_pos_iff hp hweight hcount]
  constructor
  · rintro ⟨top', htop', hlayer⟩
    rwa [htop'.unique hgreatest] at hlayer
  · intro hlayer
    exact ⟨top, hgreatest, hlayer⟩

theorem ofReference_of_not_hasTurbulence (hp : reference.Ordered)
    (hweight : reference.NonNegative) (hcount : 2 ≤ count)
    (hnone : ¬HasTurbulence reference count) :
    ofReference reference count = .error (.error (.reference .weights)) := by
  obtain ⟨top, htop⟩ := hp.exists_maxAltitude?
  rw [hasTurbulence_iff hp hweight htop hcount] at hnone
  rw [ofReference_eq_ite hp hweight htop hcount, if_neg hnone]

/-- A profile without wind whose layers are spaced equally from the ground to the highest
altitude of a table, with fractions proportional to the strengths of the table. -/
structure SampledFrom (p : TurbulenceProfile ℝ) (reference : ReferenceProfile ℝ) (count : ℕ) :
    Prop where
  layerCount_eq : p.layerCount = count
  matched : p.Matched
  altitude_spaced : ∀ top, IsGreatest {h | h ∈ reference.altitude} top → ∀ i < count,
    p.altitude[i]? = some (top * i / (count - 1))
  head?_altitude : p.altitude.head? = some 0
  isGreatest_getLast : ∃ top ∈ p.altitude.getLast?,
    IsGreatest {h | h ∈ reference.altitude} top
  weight_nonneg : ∀ w ∈ p.weight, 0 ≤ w
  sum_weight : p.weight.sum = 1
  weight_proportional : ∃ total, 0 < total ∧ ∀ (i : ℕ) (h : ℝ), p.altitude[i]? = some h →
    ∃ w, reference.interpolate? h = some w ∧ p.weight[i]? = some (w / total)

theorem weight_normalized (altitudes ws : List ℝ) :
    (normalized altitudes ws).weight = ws.map (· / ws.sum) := by
  rw [← Scalar.sumList_eq_sum]
  rfl

theorem sum_weight_normalized (altitudes : List ℝ) {ws : List ℝ} (hsum : ws.sum ≠ 0) :
    (normalized altitudes ws).weight.sum = 1 := by
  rw [weight_normalized]
  simp only [div_eq_mul_inv, List.sum_map_mul_right, List.map_id']
  exact mul_inv_cancel₀ hsum

/-- The last layer is at the highest altitude. -/
theorem getLast?_spacedAltitudes (top : ℝ) (hcount : 2 ≤ count) :
    (spacedAltitudes top count).getLast? = some top := by
  have hcount' : (count : ℝ) - 1 ≠ 0 := by
    have htwo : (2 : ℝ) ≤ count := by exact_mod_cast hcount
    linarith
  rw [List.getLast?_eq_getElem?, length_spacedAltitudes,
    getElem?_spacedAltitudes top (by omega), Nat.cast_pred (by omega),
    mul_div_cancel_right₀ _ hcount']

theorem sampledFrom_normalized (hp : reference.Ordered) (hweight : reference.NonNegative)
    (htop : reference.maxAltitude? = some top) (hcount : 2 ≤ count)
    (hsum : 0 < (strengths reference top count).sum) :
    (normalized (spacedAltitudes top count) (strengths reference top count)).SampledFrom
      reference count where
  layerCount_eq := length_spacedAltitudes top count
  matched := by
    refine ⟨rfl, ?_, ?_, ?_⟩
    · simp [normalized, strengths]
    · simp [normalized]
    · simp [normalized]
  altitude_spaced top' htop' i hi := by
    rw [htop'.unique (ReferenceProfile.maxAltitude?_eq_some_iff.1 htop)]
    exact getElem?_spacedAltitudes top hi
  head?_altitude := by
    rw [List.head?_eq_getElem?]
    refine (getElem?_spacedAltitudes top (by omega)).trans ?_
    simp
  isGreatest_getLast :=
    ⟨top, getLast?_spacedAltitudes top hcount, ReferenceProfile.maxAltitude?_eq_some_iff.1 htop⟩
  weight_nonneg w hw := by
    rw [weight_normalized] at hw
    obtain ⟨x, hx, rfl⟩ := List.mem_map.1 hw
    exact div_nonneg (strengths_nonneg hp hweight x hx) hsum.le
  sum_weight := sum_weight_normalized _ hsum.ne'
  weight_proportional := by
    refine ⟨_, hsum, ?_⟩
    intro i h hh
    refine ⟨reference.strengthAt h, ReferenceProfile.interpolate?_eq_strengthAt hp h, ?_⟩
    have hh' : (spacedAltitudes top count)[i]? = some h := hh
    rw [weight_normalized, strengths, List.getElem?_map, List.getElem?_map, hh']
    rfl

/-- What has been checked when a profile was sampled, and what the profile is. -/
theorem of_ofReference_eq_ok {p : TurbulenceProfile ℝ}
    (hofReference : ofReference reference count = .ok p) :
    (reference.Ordered ∧ reference.NonNegative ∧ 2 ≤ count ∧ HasTurbulence reference count) ∧
      p.SampledFrom reference count := by
  cases hcheck : reference.check with
  | error fault =>
      rw [ofReference_of_fault hcheck] at hofReference
      cases hofReference
  | ok u =>
      obtain ⟨hp, hweight⟩ := ReferenceProfile.check_eq_ok_iff.1 hcheck
      by_cases hcount : 2 ≤ count
      · by_cases hsome : HasTurbulence reference count
        · refine ⟨⟨hp, hweight, hcount, hsome⟩, ?_⟩
          obtain ⟨top, htop⟩ := hp.exists_maxAltitude?
          rw [hasTurbulence_iff hp hweight htop hcount] at hsome
          rw [ofReference_eq_ite hp hweight htop hcount, if_pos hsome] at hofReference
          rw [← Except.ok.inj hofReference]
          exact sampledFrom_normalized hp hweight htop hcount hsome
        · rw [ofReference_of_not_hasTurbulence hp hweight hcount hsome] at hofReference
          cases hofReference
      · rw [ofReference_of_lt hcheck (not_le.1 hcount)] at hofReference
        cases hofReference

variable [RandomSource ℝ]

/-- A profile can be sampled from a table exactly when the table passes its check, there are
at least two layers, and one of them has turbulence. Otherwise the first of these that fails
is reported. The profile has the layers of the table, and after any random winds it still has
one value for each layer in every list, and the same layers. -/
theorem ofReference_outcome (reference : ReferenceProfile ℝ) (count : ℕ) :
    ((∃ p, ofReference reference count = .ok p) ↔ reference.Ordered ∧ reference.NonNegative ∧
      2 ≤ count ∧ HasTurbulence reference count) ∧
    (¬reference.Ordered →
      ofReference reference count = .error (.error (.reference .altitudes))) ∧
    (reference.Ordered → ¬reference.NonNegative →
      ofReference reference count = .error (.error (.reference .weights))) ∧
    (reference.Ordered → reference.NonNegative → count < 2 →
      ofReference reference count = .error (.error (.layerCount count))) ∧
    (reference.Ordered → reference.NonNegative → 2 ≤ count → ¬HasTurbulence reference count →
      ofReference reference count = .error (.error (.reference .weights))) ∧
    ∀ p, ofReference reference count = .ok p →
      p.SampledFrom reference count ∧ p.check = .ok () ∧
      ∀ (maxSpeeds : List ℝ) (s : RandomSource.State ℝ), ∃ speeds directions,
        (randomWinds maxSpeeds p s).1 =
          { p with windSpeed := speeds, windDirection := directions } ∧
        (randomWinds maxSpeeds p s).1.check = .ok () := by
  refine ⟨⟨?_, ?_⟩, ?_, ?_, ?_, ?_, ?_⟩
  · rintro ⟨p, hofReference⟩
    exact (of_ofReference_eq_ok hofReference).1
  · rintro ⟨hp, hweight, hcount, hsome⟩
    obtain ⟨top, htop⟩ := hp.exists_maxAltitude?
    rw [hasTurbulence_iff hp hweight htop hcount] at hsome
    exact ⟨_, (ofReference_eq_ite hp hweight htop hcount).trans (if_pos hsome)⟩
  · intro hp
    exact ofReference_of_fault (ReferenceProfile.check_of_not_ordered hp)
  · intro hp hweight
    exact ofReference_of_fault (ReferenceProfile.check_of_not_nonNegative hp hweight)
  · intro hp hweight hcount
    exact ofReference_of_lt (ReferenceProfile.check_of_ordered hp hweight) hcount
  · intro hp hweight hcount hnone
    exact ofReference_of_not_hasTurbulence hp hweight hcount hnone
  · intro p hofReference
    have hsampled := (of_ofReference_eq_ok hofReference).2
    refine ⟨hsampled, check_eq_ok_iff.2 hsampled.matched, ?_⟩
    intro maxSpeeds s
    obtain ⟨speeds, directions, heq, hmatched⟩ := fst_randomWinds maxSpeeds hsampled.matched s
    exact ⟨speeds, directions, heq, check_eq_ok_iff.2 hmatched⟩

end Sample

section Wedge

/-- A table with turbulence towards its upper end only. -/
def wedge : ReferenceProfile ℝ := ⟨[0, 10], [0, 1]⟩

theorem ordered_wedge : wedge.Ordered := ⟨by simp [wedge], rfl, by simp [wedge]⟩

theorem nonNegative_wedge : wedge.NonNegative := by
  simp [ReferenceProfile.NonNegative, wedge]

theorem hasTurbulence_wedge : HasTurbulence wedge 3 := by
  refine ⟨10, ⟨by simp [wedge], by simp [wedge, upperBounds]⟩, 2, by norm_num, ?_⟩
  have hvalue : wedge.interpolate? 10 = some 1 :=
    ReferenceProfile.interpolate?_of_ge ordered_wedge (by simp [wedge]) (by simp [wedge])
  norm_num [hvalue]

theorem exists_ofReference_wedge : ∃ p, ofReference wedge 3 = .ok p := by
  obtain ⟨top, htop⟩ := ordered_wedge.exists_maxAltitude?
  have hsum := (hasTurbulence_iff ordered_wedge nonNegative_wedge htop (by norm_num)).1
    hasTurbulence_wedge
  exact ⟨_, (ofReference_eq_ite ordered_wedge nonNegative_wedge htop (by norm_num)).trans
    (if_pos hsum)⟩

/-- Three layers of the table, before and after a random wind. -/
theorem ofReference_outcome_wedge : letI := countingSource
    ∃ p, ofReference wedge 3 = .ok p ∧ p.SampledFrom wedge 3 ∧ p.check = .ok () ∧
      (randomWinds [20] p (0 : ℕ)).1.check = .ok () := by
  obtain ⟨hok, -, -, -, -, hsampled⟩ := @ofReference_outcome countingSource wedge 3
  obtain ⟨p, hp⟩ :=
    hok.2 ⟨ordered_wedge, nonNegative_wedge, by norm_num, hasTurbulence_wedge⟩
  obtain ⟨hlayers, hcheck, hwinds⟩ := hsampled p hp
  obtain ⟨-, -, -, hwindy⟩ := hwinds [20] (0 : ℕ)
  exact ⟨p, hp, hlayers, hcheck, hwindy⟩

end Wedge

end TurbulenceProfile

end Seeing
