import Seeing.Proofs.Random
import Seeing.Turbulence.Profile

/-!
# The winds of a stream

A random wind takes two deviates of the stream for each layer in turn, its speed and then its
direction: `TurbulenceProfile.randomWind_eq`. So the winds are those of a stretch of the stream that
is twice as long as there are layers, and the next random wind goes on where it ends,
`TurbulenceProfile.mapM_randomWind`.
-/

open Real

namespace Seeing

namespace TurbulenceProfile

section Stretch

variable {α : Type} [Scalar α]

/-- The profile in the wind of a stretch of a stream. -/
def inWind (p : TurbulenceProfile α) (maxSpeed : α) (u : ℕ → α) (start : ℕ) :
    TurbulenceProfile α :=
  { p with
    windSpeed := (List.range p.layerCount).map fun k => u (start + 2 * k) * maxSpeed
    windDirection := (List.range p.layerCount).map fun k =>
      u (start + 2 * k + 1) * 2 * Scalar.pi }

variable [RandomSource α] (maxSpeed : α) (s : RandomSource.State α)

theorem drawWind_afterUniforms (n : ℕ) :
    drawWind maxSpeed (RandomSource.afterUniforms s n) =
      ((RandomSource.uniformAt s n * maxSpeed, RandomSource.uniformAt s (n + 1) * 2 * Scalar.pi),
        RandomSource.afterUniforms s (n + 2)) := rfl

theorem snd_drawMany_drawWind (start n : ℕ) :
    (drawMany n (drawWind maxSpeed) (RandomSource.afterUniforms s start)).2 =
      RandomSource.afterUniforms s (start + 2 * n) := by
  induction n with
  | zero => rfl
  | succ n ih =>
      rw [drawMany_succ, ih, drawWind_afterUniforms]
      rfl

theorem drawAt_drawWind (start k : ℕ) :
    drawAt (drawWind maxSpeed) (RandomSource.afterUniforms s start) k =
      (RandomSource.uniformAt s (start + 2 * k) * maxSpeed,
        RandomSource.uniformAt s (start + 2 * k + 1) * 2 * Scalar.pi) := by
  rw [drawAt, snd_drawMany_drawWind, drawWind_afterUniforms]

theorem randomWind_eq (p : TurbulenceProfile α) (start : ℕ) :
    randomWind maxSpeed p (RandomSource.afterUniforms s start) =
      (p.inWind maxSpeed (RandomSource.uniformAt s) start,
        RandomSource.afterUniforms s (start + 2 * p.layerCount)) := by
  have hwinds := toList_drawMany (drawWind maxSpeed) p.layerCount
    (RandomSource.afterUniforms s start)
  have hdrawn : randomWind maxSpeed p (RandomSource.afterUniforms s start) =
      ({ p with
          windSpeed := (drawMany p.layerCount (drawWind maxSpeed)
            (RandomSource.afterUniforms s start)).1.toList.map (·.1)
          windDirection := (drawMany p.layerCount (drawWind maxSpeed)
            (RandomSource.afterUniforms s start)).1.toList.map (·.2) },
        (drawMany p.layerCount (drawWind maxSpeed) (RandomSource.afterUniforms s start)).2) := rfl
  rw [hdrawn, hwinds, snd_drawMany_drawWind, inWind, List.map_map, List.map_map]
  simp only [Function.comp_def, drawAt_drawWind]

end Stretch

section Calls

variable {α : Type} [Scalar α]

/-- The number of layers over which a list of calls blows winds. -/
def layersOf (calls : List (α × TurbulenceProfile α)) : ℕ :=
  (calls.map fun c => c.2.layerCount).sum

/-- The profiles in the winds of a stream, each from where the one before has come to. -/
def inWinds (u : ℕ → α) : ℕ → List (α × TurbulenceProfile α) → List (TurbulenceProfile α)
  | _, [] => []
  | start, (maxSpeed, p) :: calls =>
      p.inWind maxSpeed u start :: inWinds u (start + 2 * p.layerCount) calls

theorem getElem?_inWinds (u : ℕ → α) (start : ℕ) (calls : List (α × TurbulenceProfile α))
    (i : ℕ) : (inWinds u start calls)[i]? =
      calls[i]?.map fun c => c.2.inWind c.1 u (start + 2 * layersOf (calls.take i)) := by
  induction calls generalizing start i with
  | nil => rfl
  | cons c calls ih =>
      cases i with
      | zero => rfl
      | succ i =>
          rw [inWinds, List.getElem?_cons_succ, ih, List.getElem?_cons_succ, List.take_succ_cons,
            layersOf, layersOf, List.map_cons, List.sum_cons, mul_add, ← add_assoc]

theorem length_inWinds (u : ℕ → α) (start : ℕ) (calls : List (α × TurbulenceProfile α)) :
    (inWinds u start calls).length = calls.length := by
  induction calls generalizing start with
  | nil => rfl
  | cons c calls ih => rw [inWinds, List.length_cons, ih, List.length_cons]

theorem mapM_cons_apply {σ β γ : Type} (f : β → StateM σ γ) (b : β) (bs : List β) (s : σ) :
    (b :: bs).mapM f s = ((f b s).1 :: (bs.mapM f (f b s).2).1, (bs.mapM f (f b s).2).2) := by
  rw [List.mapM_cons]
  rfl

/-- Random winds one after the other take their deviates one after the other. -/
theorem mapM_randomWind [RandomSource α] (s : RandomSource.State α)
    (calls : List (α × TurbulenceProfile α)) (start : ℕ) :
    (calls.mapM fun c => randomWind c.1 c.2) (RandomSource.afterUniforms s start) =
      (inWinds (RandomSource.uniformAt s) start calls,
        RandomSource.afterUniforms s (start + 2 * layersOf calls)) := by
  induction calls generalizing start with
  | nil => rfl
  | cons c calls ih =>
      have hrest := ih (start + 2 * c.2.layerCount)
      rw [add_assoc, ← mul_add] at hrest
      rw [mapM_cons_apply, randomWind_eq, hrest]
      rfl

end Calls

/-- The profile `q` is `p` in a wind that takes two deviates of a stream for each layer in turn. -/
structure Blown (p q : TurbulenceProfile ℝ) (maxSpeed : ℝ) (u : ℕ → ℝ) (start : ℕ) : Prop where
  layerCount_eq : q.layerCount = p.layerCount
  altitude_eq : q.altitude = p.altitude
  weight_eq : q.weight = p.weight
  length_windSpeed : q.windSpeed.length = p.layerCount
  length_windDirection : q.windDirection.length = p.layerCount
  windSpeed_eq : ∀ k (hk : k < q.windSpeed.length),
    q.windSpeed[k] = u (start + 2 * k) * maxSpeed
  windDirection_eq : ∀ k (hk : k < q.windDirection.length),
    q.windDirection[k] = 2 * π * u (start + 2 * k + 1)
  windSpeed_mem : ∀ v ∈ q.windSpeed, v ∈ Set.Ico 0 maxSpeed
  windDirection_mem : ∀ φ ∈ q.windDirection, φ ∈ Set.Ico 0 (2 * π)

section Winds

theorem Blown.windSpeed_eq_map {p q : TurbulenceProfile ℝ} {maxSpeed : ℝ} {u : ℕ → ℝ} {start : ℕ}
    (h : Blown p q maxSpeed u start) :
    q.windSpeed = (List.range p.layerCount).map fun k => u (start + 2 * k) * maxSpeed := by
  refine List.ext_getElem (by simp [h.length_windSpeed]) ?_
  intro k hk hk'
  rw [h.windSpeed_eq, List.getElem_map, List.getElem_range]

theorem mul_mem_Ico {t c : ℝ} (ht : 0 ≤ t ∧ t < 1) (hc : 0 < c) : t * c ∈ Set.Ico 0 c :=
  ⟨mul_nonneg ht.1 hc.le, mul_lt_of_lt_one_left hc ht.2⟩

theorem blown_inWind {u : ℕ → ℝ} (hu : ∀ n, 0 ≤ u n ∧ u n < 1) {maxSpeed : ℝ}
    (hmax : 0 < maxSpeed) (p : TurbulenceProfile ℝ) (start : ℕ) :
    Blown p (p.inWind maxSpeed u start) maxSpeed u start where
  layerCount_eq := rfl
  altitude_eq := rfl
  weight_eq := rfl
  length_windSpeed := by rw [inWind, List.length_map, List.length_range]
  length_windDirection := by rw [inWind, List.length_map, List.length_range]
  windSpeed_eq k hk := by simp [inWind]
  windDirection_eq k hk := by
    simp only [inWind, List.getElem_map, List.getElem_range, Scalar.real_pi, Scalar.real_mul,
      Scalar.real_literal]
    ring
  windSpeed_mem := by
    intro v hv
    obtain ⟨k, -, rfl⟩ := List.mem_map.1 hv
    exact mul_mem_Ico (hu _) hmax
  windDirection_mem := by
    intro φ hφ
    obtain ⟨k, -, rfl⟩ := List.mem_map.1 hφ
    have hturn := mul_mem_Ico (hu (start + 2 * k + 1)) two_pi_pos
    rwa [← mul_assoc] at hturn

theorem range_begins {m n : ℕ} (hmn : m ≤ n) : List.range m <+: List.range n := by
  obtain ⟨k, rfl⟩ := Nat.exists_eq_add_of_le hmn
  rw [List.range_add]
  exact List.prefix_append _ _

variable [RandomSource ℝ] {s : RandomSource.State ℝ}

/-- A random wind takes twice as many deviates as there are layers, and gives each layer a speed and
a direction from two of them. The winds of fewer layers are the first ones of those of more. Random
winds one after the other take stretches of the stream one after the other. -/
theorem winds_of_stream (hs : RandomSource.IsUniform s) {maxSpeed : ℝ} (hmax : 0 < maxSpeed)
    (p : TurbulenceProfile ℝ) :
    (∃ q, randomWind maxSpeed p s = (q, RandomSource.afterUniforms s (2 * p.layerCount)) ∧
        Blown p q maxSpeed (RandomSource.uniformAt s) 0) ∧
      (∀ longer : TurbulenceProfile ℝ, p.layerCount ≤ longer.layerCount →
        (randomWind maxSpeed p s).1.windSpeed <+: (randomWind maxSpeed longer s).1.windSpeed ∧
          (randomWind maxSpeed p s).1.windDirection <+:
            (randomWind maxSpeed longer s).1.windDirection) ∧
      ∀ calls : List (ℝ × TurbulenceProfile ℝ), (∀ c ∈ calls, 0 < c.1) →
        ∃ qs, (calls.mapM fun c => randomWind c.1 c.2) s =
            (qs, RandomSource.afterUniforms s (2 * layersOf calls)) ∧
          qs.length = calls.length ∧
          ∀ i c, calls[i]? = some c → ∃ q, qs[i]? = some q ∧
            Blown c.2 q c.1 (RandomSource.uniformAt s) (2 * layersOf (calls.take i)) := by
  have hwind (p : TurbulenceProfile ℝ) : randomWind maxSpeed p s =
      (p.inWind maxSpeed (RandomSource.uniformAt s) 0,
        RandomSource.afterUniforms s (2 * p.layerCount)) := by
    have hstart := randomWind_eq maxSpeed s p 0
    rwa [zero_add] at hstart
  refine ⟨⟨_, hwind p, blown_inWind hs hmax p 0⟩, ?_, ?_⟩
  · intro longer hle
    rw [hwind, hwind]
    exact ⟨(range_begins hle).map _, (range_begins hle).map _⟩
  · intro calls hcalls
    have hwinds := mapM_randomWind s calls 0
    rw [zero_add] at hwinds
    refine ⟨_, hwinds, length_inWinds _ _ _, ?_⟩
    intro i c hc
    rw [getElem?_inWinds, hc, Option.map_some, zero_add]
    exact ⟨_, rfl, blown_inWind hs (hcalls c (List.mem_of_getElem? hc)) c.2 _⟩

end Winds

/-- Over two layers, the deviates `9/10`, `0`, `1/10` and `1/5` of the counting source. A second
wind goes on with `3/10`. -/
theorem winds_of_stream_counting :
    letI := countingSource
    let p : TurbulenceProfile ℝ := .normalized [0, 5] [1, 3]
    RandomSource.IsUniform (9 : ℕ) ∧ (0 : ℝ) < 20 ∧
      (∃ q, randomWind 20 p (9 : ℕ) = (q, (13 : ℕ)) ∧ q.windSpeed = [18, 2] ∧
        q.windDirection = [0, 2 * π * (1 / 5)]) ∧
      ∃ q r, ([(20, p), (10, p)].mapM fun c => randomWind c.1 c.2) (9 : ℕ) =
        ([q, r], (17 : ℕ)) ∧ r.windSpeed = [3, 5] := by
  intro p
  have hdeviate := uniformAt_countingSource 9
  have huniform := isUniform_countingSource 9
  obtain ⟨⟨q, hq, hblown⟩, -, hcalls⟩ :=
    @winds_of_stream countingSource (9 : ℕ) huniform 20 (by norm_num) p
  obtain ⟨qs, hqs, hlength, hblowns⟩ := hcalls [(20, p), (10, p)] (by simp)
  obtain ⟨q', r, rfl⟩ : ∃ q' r, qs = [q', r] := List.length_eq_two.1 hlength
  obtain ⟨_, ⟨⟩, hr⟩ := hblowns 1 (10, p) rfl
  refine ⟨huniform, by norm_num, ⟨q, hq, ?_, ?_⟩, q', r, hqs, ?_⟩
  · rw [hblown.windSpeed_eq_map]
    change [_, _] = _
    norm_num [hdeviate, Int.fract]
  · refine List.ext_getElem hblown.length_windDirection ?_
    intro k hk hk'
    have hk'' : k < 2 := hk'
    rw [hblown.windDirection_eq, hdeviate]
    interval_cases k <;> norm_num [Int.fract]
  · rw [hr.windSpeed_eq_map]
    change [_, _] = _
    norm_num [hdeviate, layersOf, p, normalized, Int.fract]

end TurbulenceProfile

end Seeing
