import Seeing.Proofs.PartitionPoint
import Seeing.Proofs.Real
import Seeing.Turbulence.Reference

/-!
# Reference profiles over the real numbers

A profile passes its check when its altitudes are in order and its weights are not
negative, `check_eq_ok_iff`. Such a table has a strength at every altitude: an altitude
inside the table lies between two neighbours that the partition point finds,
`around_place`, so the strength is never missing and never negative.
-/

namespace Seeing

namespace ReferenceProfile

section Tests

variable {α : Type} [Scalar α]

/-- The altitudes are missing, out of order, or not as many as the weights. -/
def misordered (p : ReferenceProfile α) : Bool :=
  p.altitude.isEmpty || p.altitude.length != p.weight.length || descends p.altitude

/-- A weight is negative or not finite. -/
def misweighted (p : ReferenceProfile α) : Bool :=
  p.weight.any fun w => !(Scalar.isFinite w && 0 ≤ w)

theorem check_eq (p : ReferenceProfile α) : p.check =
    if p.misordered then .error .altitudes
    else if p.misweighted then .error .weights else .ok () := rfl

theorem check_of_tests {p : ReferenceProfile α} (hordered : p.misordered = false)
    (hweighted : p.misweighted = false) : p.check = .ok () := by
  rw [check_eq, hordered, hweighted]
  rfl

end Tests

section Lookup

variable {α : Type} [Scalar α]

/-- The number of altitudes before the neighbour above an altitude, as the search finds
it. -/
def place (p : ReferenceProfile α) (h : α) : ℕ :=
  partitionPoint p.altitude.length fun i => p.altitude[i]?.any (· ≤ h)

/-- The strength at an altitude between the neighbours number `k - 1` and `k`. -/
def between? (p : ReferenceProfile α) (k : ℕ) (h : α) : Option α := do
  let h₀ ← p.altitude[k - 1]?
  let h₁ ← p.altitude[k]?
  let w₀ ← p.weight[k - 1]?
  let w₁ ← p.weight[k]?
  if h₁ == h₀ then some w₀ else some (w₀ + (w₁ - w₀) * (h - h₀) / (h₁ - h₀))

/-- The lookup tries the first altitude, the last one, and the neighbours it searches. -/
theorem interpolate?_eq {p : ReferenceProfile α} (hne : p.altitude ≠ []) (h : α) :
    p.interpolate? h =
      if h ≤ p.altitude.head hne then p.weight.head?
      else if p.altitude.getLast hne ≤ h then p.weight[p.altitude.length - 1]?
      else if p.place h = 0 then none
      else p.between? (p.place h) h := by
  rw [interpolate?, List.head?_eq_some_head hne, List.getLast?_eq_some_getLast hne]
  rfl

theorem between?_eq {p : ReferenceProfile α} {k : ℕ} (hk : k < p.altitude.length)
    (hk' : k < p.weight.length) (h : α) :
    p.between? k h = some
      (if p.altitude[k] == p.altitude[k - 1] then p.weight[k - 1]
      else p.weight[k - 1] + (p.weight[k] - p.weight[k - 1]) * (h - p.altitude[k - 1]) /
        (p.altitude[k] - p.altitude[k - 1])) := by
  rw [between?, List.getElem?_eq_getElem hk, List.getElem?_eq_getElem hk',
    List.getElem?_eq_getElem ((Nat.sub_le k 1).trans_lt hk),
    List.getElem?_eq_getElem ((Nat.sub_le k 1).trans_lt hk')]
  simp only [bind, Option.bind]
  split_ifs <;> rfl

end Lookup

variable {p : ReferenceProfile ℝ}

/-- There are altitudes, as many as weights, and none is below the one before. -/
structure Ordered (p : ReferenceProfile ℝ) : Prop where
  ne_nil : p.altitude ≠ []
  length_eq : p.altitude.length = p.weight.length
  sorted : p.altitude.Pairwise (· ≤ ·)

/-- No weight is negative. -/
def NonNegative (p : ReferenceProfile ℝ) : Prop := ∀ w ∈ p.weight, 0 ≤ w

theorem descends_eq_false_iff (xs : List ℝ) : descends xs = false ↔ xs.Pairwise (· ≤ ·) := by
  induction xs with
  | nil => simp [descends]
  | cons x xs ih =>
      cases xs with
      | nil => simp [descends]
      | cons y ys =>
          have hstep : descends (x :: y :: ys) = false ↔ x ≤ y ∧ descends (y :: ys) = false := by
            simp [descends]
          rw [hstep, ih, List.pairwise_cons (a := x)]
          constructor
          · rintro ⟨hxy, hsorted⟩
            refine ⟨?_, hsorted⟩
            intro z hz
            rcases List.mem_cons.1 hz with rfl | hz
            · exact hxy
            · exact hxy.trans (List.rel_of_pairwise_cons hsorted hz)
          · rintro ⟨hx, hsorted⟩
            exact ⟨hx y List.mem_cons_self, hsorted⟩

theorem misordered_eq_false_iff : p.misordered = false ↔ p.Ordered := by
  rw [misordered, Bool.or_eq_false_iff, Bool.or_eq_false_iff, descends_eq_false_iff]
  constructor
  · rintro ⟨⟨hnil, hlength⟩, hsorted⟩
    exact ⟨by simpa using hnil, by simpa using hlength, hsorted⟩
  · rintro ⟨hnil, hlength, hsorted⟩
    exact ⟨⟨by simpa using hnil, by simpa using hlength⟩, hsorted⟩

theorem misweighted_eq_false_iff : p.misweighted = false ↔ p.NonNegative := by
  simp [misweighted, NonNegative, Scalar.isFinite]

theorem check_of_not_ordered (hp : ¬p.Ordered) : p.check = .error .altitudes := by
  rw [← misordered_eq_false_iff, Bool.not_eq_false] at hp
  rw [check_eq, if_pos hp]

theorem check_of_not_nonNegative (hp : p.Ordered) (hweight : ¬p.NonNegative) :
    p.check = .error .weights := by
  rw [← misweighted_eq_false_iff, Bool.not_eq_false] at hweight
  rw [check_eq, misordered_eq_false_iff.2 hp, hweight]
  rfl

theorem check_of_ordered (hp : p.Ordered) (hweight : p.NonNegative) : p.check = .ok () :=
  check_of_tests (misordered_eq_false_iff.2 hp) (misweighted_eq_false_iff.2 hweight)

theorem check_eq_ok_iff : p.check = .ok () ↔ p.Ordered ∧ p.NonNegative := by
  constructor
  · intro hcheck
    by_cases hp : p.Ordered
    · refine ⟨hp, ?_⟩
      by_contra hweight
      rw [check_of_not_nonNegative hp hweight] at hcheck
      cases hcheck
    · rw [check_of_not_ordered hp] at hcheck
      cases hcheck
  · rintro ⟨hp, hweight⟩
    exact check_of_ordered hp hweight

theorem foldl_highest {f : Option ℝ → ℝ → Option ℝ}
    (hf : ∀ top h, f (some top) h = some (max top h)) (xs : List ℝ) (top : ℝ) :
    xs.foldl f (some top) = some (xs.foldl max top) := by
  induction xs generalizing top with
  | nil => rfl
  | cons x xs ih => rw [List.foldl_cons, hf, ih, List.foldl_cons]

theorem isGreatest_foldl_max (xs : List ℝ) (top : ℝ) :
    IsGreatest {h | h ∈ top :: xs} (xs.foldl max top) := by
  induction xs generalizing top with
  | nil => simp
  | cons x xs ih =>
      obtain ⟨hmem, hupper⟩ := ih (max top x)
      rw [List.foldl_cons]
      constructor
      · rcases List.mem_cons.1 hmem with hmax | hmem
        · rw [hmax]
          rcases max_choice top x with h | h <;> simp [h]
        · exact List.mem_cons_of_mem _ (List.mem_cons_of_mem _ hmem)
      · intro h hh
        have hmax : max top x ≤ xs.foldl max (max top x) := hupper List.mem_cons_self
        rcases List.mem_cons.1 hh with rfl | hh
        · exact (le_max_left _ _).trans hmax
        · rcases List.mem_cons.1 hh with rfl | hh
          · exact (le_max_right _ _).trans hmax
          · exact hupper (List.mem_cons_of_mem _ hh)

theorem maxAltitude?_eq_some_iff {top : ℝ} :
    p.maxAltitude? = some top ↔ IsGreatest {h | h ∈ p.altitude} top := by
  cases haltitude : p.altitude with
  | nil => simp [maxAltitude?, haltitude, IsGreatest]
  | cons a rest =>
      have hmax : p.maxAltitude? = some (rest.foldl max a) := by
        rw [maxAltitude?, haltitude, List.foldl_cons]
        simp only [le_refl, if_true]
        exact foldl_highest (fun top h => congrArg some (Scalar.larger_eq_max top h)) rest a
      rw [hmax, Option.some.injEq]
      constructor
      · rintro rfl
        exact isGreatest_foldl_max rest a
      · exact (isGreatest_foldl_max rest a).unique

theorem Ordered.exists_maxAltitude? (hp : p.Ordered) : ∃ top, p.maxAltitude? = some top := by
  obtain ⟨a, rest, haltitude⟩ := List.exists_cons_of_ne_nil hp.ne_nil
  refine ⟨rest.foldl max a, maxAltitude?_eq_some_iff.2 ?_⟩
  rw [haltitude]
  exact isGreatest_foldl_max rest a

/-- The altitudes number `k - 1` and `k` of a table are neighbours around `h`. -/
structure Around (p : ReferenceProfile ℝ) (k : ℕ) (h : ℝ) : Prop where
  pos : 0 < k
  lt : k < p.altitude.length
  below : p.altitude[k - 1] ≤ h
  above : h < p.altitude[k]

theorem Around.altitude_lt {k : ℕ} {h : ℝ} (hk : p.Around k h) (hlt : k < p.altitude.length) :
    p.altitude[k - 1] < p.altitude[k] :=
  hk.below.trans_lt hk.above

/-- The line through two points. -/
noncomputable def lineThrough (x₀ y₀ x₁ y₁ x : ℝ) : ℝ := y₀ + (y₁ - y₀) * (x - x₀) / (x₁ - x₀)

/-- Between its points a line stays in every convex set that holds both ends. -/
theorem lineThrough_mem {s : Set ℝ} (hs : Convex ℝ s) {x₀ y₀ x₁ y₁ x : ℝ} (hx₀ : x₀ ≤ x)
    (hx₁ : x < x₁) (hy₀ : y₀ ∈ s) (hy₁ : y₁ ∈ s) : lineThrough x₀ y₀ x₁ y₁ x ∈ s := by
  have hgap : 0 < x₁ - x₀ := by linarith
  -- a mean of the two ends, with the share `t` of the upper one
  obtain ⟨t, ht, ht0, ht1⟩ : ∃ t, (x - x₀) / (x₁ - x₀) = t ∧ 0 ≤ t ∧ t ≤ 1 := by
    refine ⟨_, rfl, div_nonneg (by linarith) hgap.le, ?_⟩
    rw [div_le_one hgap]
    linarith
  have hmean : lineThrough x₀ y₀ x₁ y₁ x = (1 - t) • y₀ + t • y₁ := by
    rw [lineThrough, mul_div_assoc, ht, smul_eq_mul, smul_eq_mul]
    ring
  rw [hmean]
  exact hs hy₀ hy₁ (by linarith) ht0 (by ring)

section Strength

variable (hp : p.Ordered) {h : ℝ}
include hp

theorem weight_ne_nil : p.weight ≠ [] := by
  rw [← List.length_pos_iff, ← hp.length_eq, List.length_pos_iff]
  exact hp.ne_nil

theorem interpolate?_of_le (hfirst : h ≤ p.altitude.head hp.ne_nil) :
    p.interpolate? h = some (p.weight.head (weight_ne_nil hp)) := by
  rw [interpolate?_eq hp.ne_nil, if_pos hfirst, List.head?_eq_some_head]

theorem interpolate?_of_ge (hfirst : p.altitude.head hp.ne_nil < h)
    (hlast : p.altitude.getLast hp.ne_nil ≤ h) :
    p.interpolate? h = some (p.weight.getLast (weight_ne_nil hp)) := by
  rw [interpolate?_eq hp.ne_nil, if_neg hfirst.not_ge, if_pos hlast, hp.length_eq,
    ← List.getLast?_eq_getElem?, List.getLast?_eq_some_getLast]

/-- The place of an altitude counts the altitudes of the table up to it. -/
theorem lt_place_iff {i : ℕ} (hi : i < p.altitude.length) :
    i < p.place h ↔ p.altitude[i] ≤ h := by
  have htest : ∀ i (hi : i < p.altitude.length),
      (p.altitude[i]?.any (· ≤ h)) = true ↔ p.altitude[i] ≤ h := by
    intro i hi
    simp [List.getElem?_eq_getElem hi]
  rw [place, lt_partitionPoint_iff _ hi, htest i hi]
  intro i j hij hj hle
  rw [htest j hj] at hle
  rw [htest i (hij.trans_lt hj)]
  rcases hij.eq_or_lt with rfl | hij
  · exact hle
  · exact (List.pairwise_iff_getElem.1 hp.sorted i j _ hj hij).trans hle

/-- Neighbours around an altitude are the ones that the partition point finds. -/
theorem Around.place_eq {k : ℕ} (hk : p.Around k h) : p.place h = k := by
  obtain ⟨hpos, hlt, hbelow, habove⟩ := hk
  have hstart : k - 1 < p.place h := (lt_place_iff hp (by omega)).2 hbelow
  have hend : ¬k < p.place h := mt (lt_place_iff hp hlt).1 habove.not_ge
  omega

theorem around_place (hfirst : p.altitude.head hp.ne_nil < h)
    (hlast : h < p.altitude.getLast hp.ne_nil) : p.Around (p.place h) h := by
  have hpos : 0 < p.altitude.length := List.length_pos_of_ne_nil hp.ne_nil
  have hstart : 0 < p.place h := by
    rw [lt_place_iff hp hpos, ← List.head_eq_getElem hp.ne_nil]
    exact hfirst.le
  have hend : ¬p.altitude.length - 1 < p.place h := by
    rw [lt_place_iff hp (by omega), ← List.getLast_eq_getElem hp.ne_nil]
    exact hlast.not_ge
  have hlt : p.place h < p.altitude.length := by omega
  refine ⟨hstart, hlt, (lt_place_iff hp (by omega)).1 (by omega), ?_⟩
  rw [← not_le, ← lt_place_iff hp hlt]
  exact lt_irrefl _

/-- Beyond the first altitude the strength is linear from one neighbour to the other. -/
theorem interpolate?_of_around {k : ℕ} (hfirst : p.altitude.head hp.ne_nil < h)
    (hk : p.Around k h) (hlt : k < p.altitude.length) (hlt' : k < p.weight.length) :
    p.interpolate? h = some
      (lineThrough p.altitude[k - 1] p.weight[k - 1] p.altitude[k] p.weight[k] h) := by
  have hlast : h < p.altitude.getLast hp.ne_nil :=
    hk.above.trans_le (hp.sorted.rel_getLast (List.getElem_mem hlt))
  have hne : p.altitude[k] ≠ p.altitude[k - 1] := (hk.altitude_lt hlt).ne'
  rw [interpolate?_eq hp.ne_nil, if_neg hfirst.not_ge, if_neg hlast.not_ge, hk.place_eq hp,
    if_neg hk.pos.ne', between?_eq hlt hlt', if_neg (by simpa using hne)]
  rfl

/-- There is a strength at every altitude, in every convex set that holds all weights. -/
theorem exists_interpolate? {s : Set ℝ} (hs : Convex ℝ s) (hweight : ∀ w ∈ p.weight, w ∈ s)
    (h : ℝ) : ∃ w, p.interpolate? h = some w ∧ w ∈ s := by
  rcases le_or_gt h (p.altitude.head hp.ne_nil) with hfirst | hfirst
  · exact ⟨_, interpolate?_of_le hp hfirst, hweight _ (List.head_mem _)⟩
  rcases le_or_gt (p.altitude.getLast hp.ne_nil) h with hlast | hlast
  · exact ⟨_, interpolate?_of_ge hp hfirst hlast, hweight _ (List.getLast_mem _)⟩
  have hk := around_place hp hfirst hlast
  have hlt' : p.place h < p.weight.length := hp.length_eq ▸ hk.lt
  exact ⟨_, interpolate?_of_around hp hfirst hk hk.lt hlt', lineThrough_mem hs hk.below hk.above
    (hweight _ (List.getElem_mem _)) (hweight _ (List.getElem_mem _))⟩

end Strength

/-- The strength at an altitude. -/
noncomputable def strengthAt (p : ReferenceProfile ℝ) (h : ℝ) : ℝ := (p.interpolate? h).getD 0

theorem interpolate?_eq_strengthAt (hp : p.Ordered) (h : ℝ) :
    p.interpolate? h = some (p.strengthAt h) := by
  obtain ⟨w, hw, -⟩ := exists_interpolate? hp convex_univ (fun w _ => Set.mem_univ w) h
  rw [strengthAt, hw, Option.getD_some]

theorem strengthAt_mem (hp : p.Ordered) {s : Set ℝ} (hs : Convex ℝ s)
    (hweight : ∀ w ∈ p.weight, w ∈ s) (h : ℝ) : p.strengthAt h ∈ s := by
  obtain ⟨w, hw, hmem⟩ := exists_interpolate? hp hs hweight h
  rw [strengthAt, hw]
  exact hmem

section Values

variable (hp : p.Ordered) {h : ℝ}
include hp

theorem strengthAt_of_le (hfirst : h ≤ p.altitude.head hp.ne_nil) :
    p.strengthAt h = p.weight.head (weight_ne_nil hp) := by
  rw [strengthAt, interpolate?_of_le hp hfirst, Option.getD_some]

theorem strengthAt_of_ge (hfirst : p.altitude.head hp.ne_nil < h)
    (hlast : p.altitude.getLast hp.ne_nil ≤ h) :
    p.strengthAt h = p.weight.getLast (weight_ne_nil hp) := by
  rw [strengthAt, interpolate?_of_ge hp hfirst hlast, Option.getD_some]

theorem strengthAt_of_around {k : ℕ} (hfirst : p.altitude.head hp.ne_nil < h)
    (hk : p.Around k h) (hlt : k < p.altitude.length) (hlt' : k < p.weight.length) :
    p.strengthAt h = lineThrough p.altitude[k - 1] p.weight[k - 1] p.altitude[k] p.weight[k] h := by
  rw [strengthAt, interpolate?_of_around hp hfirst hk hlt hlt', Option.getD_some]

end Values

theorem strengthAt_nonneg (hp : p.Ordered) (hweight : p.NonNegative) (h : ℝ) :
    0 ≤ p.strengthAt h :=
  strengthAt_mem hp (convex_Ici 0) hweight h

end ReferenceProfile

end Seeing
