import Seeing.Proofs.Atmosphere.Session
import Seeing.Proofs.Exposure.Diffraction

/-!
# Screens carried by the wind

A screen covers the plane by repetition. Its `node`s are the pixels counted on without end in both
directions, and along either axis the phase is linear from one node to the next:
`PhaseScreen.phase_eq_linearBetween`. In this form nothing is wrapped any more. That the screen
repeats is that its nodes do, and that it is frozen in the wind is that place and time enter
together.

What is read for a place is listed by `PhaseScreen.readings`, which is never outside of the data.

All screens of an atmosphere are drawn with the same side and scale, whatever was set before or
after, so that the phase through all of them repeats as each does: `Atmosphere.phase_repeats`.
-/

namespace Seeing

/-- The value at a place between the integers, linear from each of them to the next. -/
noncomputable def linearBetween (f : ℤ → ℝ) (u : ℝ) : ℝ :=
  (1 - Int.fract u) * f ⌊u⌋ + Int.fract u * f (⌊u⌋ + 1)

theorem linearBetween_add_intCast (f : ℤ → ℝ) (u : ℝ) (k : ℤ) :
    linearBetween f (u + k) = linearBetween (fun i => f (i + k)) u := by
  rw [linearBetween, linearBetween, Int.fract_add_intCast, Int.floor_add_intCast,
    add_right_comm ⌊u⌋ 1 k]

namespace Scalar

theorem wrap_eq_add (u : ℝ) (n : ℕ) : wrap u n = u + ((n * -⌊u / n⌋ : ℤ) : ℝ) := by
  change u - n * (⌊u / n⌋ : ℝ) = _
  push_cast
  ring

theorem wrap_nonneg (u : ℝ) {n : ℕ} (hn : 0 < n) : 0 ≤ wrap u n := by
  have hfloor := Int.floor_le (u / n)
  rw [le_div_iff₀ (Nat.cast_pos.2 hn)] at hfloor
  change 0 ≤ u - n * (⌊u / n⌋ : ℝ)
  linarith

end Scalar

namespace PhaseScreen

section Nodes

variable {α : Type} (p : PhaseScreen α)

/-- The phase at the node `(i, j)` of the plane that the screen covers. -/
def node (i j : ℤ) : α := p.pixel (i % p.side).toNat (j % p.side).toNat

theorem node_natCast (i j : ℕ) : p.node i j = p.pixel i j := by
  rw [node, ← Int.natCast_emod, ← Int.natCast_emod, Int.toNat_natCast, Int.toNat_natCast,
    pixel_mod_left, pixel_mod_right]

theorem node_add_mul_left (i j k : ℤ) : p.node (i + p.side * k) j = p.node i j := by
  rw [node, node, Int.add_mul_emod_self_left]

theorem node_add_mul_right (i j k : ℤ) : p.node i (j + p.side * k) = p.node i j := by
  rw [node, node, Int.add_mul_emod_self_left]

theorem pixel_mod_add_left (i j k : ℕ) : p.pixel (i % p.side + k) j = p.pixel (i + k) j := by
  rw [← pixel_mod_left, Nat.mod_add_mod, pixel_mod_left]

theorem pixel_mod_add_right (i j k : ℕ) : p.pixel i (j % p.side + k) = p.pixel i (j + k) := by
  rw [← pixel_mod_right, Nat.mod_add_mod, pixel_mod_right]

variable [Scalar α]

/-- The places in the data that are read for the place `(u, v)` in pixels, and what each of them
counts. -/
def readings (u v : α) : List (ℕ × α) :=
  let i₀ := Scalar.toNat (Scalar.floor u) % p.side
  let j₀ := Scalar.toNat (Scalar.floor v) % p.side
  let i₁ := (i₀ + 1) % p.side
  let j₁ := (j₀ + 1) % p.side
  let du := u - Scalar.floor u
  let dv := v - Scalar.floor v
  [(j₀ * p.side + i₀, (1 - du) * (1 - dv)), (j₀ * p.side + i₁, du * (1 - dv)),
    (j₁ * p.side + i₀, (1 - du) * dv), (j₁ * p.side + i₁, du * dv)]

/-- No place outside of the data is read, wherever `u` and `v` lie. -/
theorem lt_of_mem_readings {u v : α} {r : ℕ × α} (hr : r ∈ p.readings u v) :
    r.1 < p.side * p.side := by
  have hplace : ∀ i j : ℕ, j % p.side * p.side + i % p.side < p.side * p.side := fun i j =>
    Grid.index_lt ⟨i % p.side, Nat.mod_lt i p.side_pos⟩ ⟨j % p.side, Nat.mod_lt j p.side_pos⟩
  simp only [readings, List.mem_cons, List.not_mem_nil, or_false] at hr
  rcases hr with rfl | rfl | rfl | rfl <;> exact hplace _ _

end Nodes

section Plane

variable (p : PhaseScreen ℝ)

/-- The phase at the place `u` on the row `j` of nodes. -/
noncomputable def onRow (u : ℝ) (j : ℤ) : ℝ := linearBetween (fun i => p.node i j) u

theorem onRow_add_mul (u : ℝ) (k : ℤ) :
    p.onRow (u + ((p.side * k : ℤ) : ℝ)) = p.onRow u := by
  funext j
  rw [onRow, linearBetween_add_intCast, onRow]
  simp only [node_add_mul_left]

theorem onRow_add_mul_right (u : ℝ) (j k : ℤ) : p.onRow u (j + p.side * k) = p.onRow u j := by
  simp only [onRow, node_add_mul_right]

theorem linearBetween_onRow_add_mul (u v : ℝ) (k : ℤ) :
    linearBetween (p.onRow u) (v + ((p.side * k : ℤ) : ℝ)) = linearBetween (p.onRow u) v := by
  rw [linearBetween_add_intCast]
  simp only [onRow_add_mul_right]

/-- The phase at the place `(u, v)` in pixels, from what is read there. -/
noncomputable def valueAt (u v : ℝ) : ℝ :=
  ((p.readings u v).map fun r => r.2 * p.phases.toArray[r.1]?.getD 0).sum

theorem valueAt_eq (u v : ℝ) : p.valueAt u v =
    (1 - Int.fract u) * (1 - Int.fract v) * p.pixel ⌊u⌋₊ ⌊v⌋₊ +
      Int.fract u * (1 - Int.fract v) * p.pixel (⌊u⌋₊ + 1) ⌊v⌋₊ +
      (1 - Int.fract u) * Int.fract v * p.pixel ⌊u⌋₊ (⌊v⌋₊ + 1) +
      Int.fract u * Int.fract v * p.pixel (⌊u⌋₊ + 1) (⌊v⌋₊ + 1) := by
  simp only [valueAt, readings, getElem?_toArray_phases, Scalar.toNat_floor, pixel_mod_add_left,
    pixel_mod_add_right, List.map_cons, List.map_nil, List.sum_cons, List.sum_nil,
    Option.getD_some, add_zero, ← add_assoc]
  simp only [Scalar.real_sub, Scalar.real_mul, Scalar.real_one]
  rfl

theorem phase_eq_valueAt (x y t : ℝ) : p.phase x y t =
    p.valueAt (Scalar.wrap ((x - p.velocity.1 * t) / p.scale) p.side)
      (Scalar.wrap ((y - p.velocity.2 * t) / p.scale) p.side) := by
  rw [valueAt_eq]
  simp only [phase, Scalar.toNat_floor, pixel_mod_left, pixel_mod_right, pixel_mod_add_left,
    pixel_mod_add_right, Scalar.real_add, Scalar.real_sub, Scalar.real_mul, Scalar.real_div,
    Scalar.real_one]
  rfl

theorem valueAt_eq_linearBetween {u v : ℝ} (hu : 0 ≤ u) (hv : 0 ≤ v) :
    p.valueAt u v = linearBetween (p.onRow u) v := by
  simp only [valueAt_eq, onRow, linearBetween, ← node_natCast]
  push_cast
  rw [Int.natCast_floor_eq_floor hu, Int.natCast_floor_eq_floor hv]
  ring

/-- Over the plane of its nodes a screen is linear along either axis from one node to the next. -/
theorem phase_eq_linearBetween (x y t : ℝ) :
    p.phase x y t = linearBetween (p.onRow ((x - p.velocity.1 * t) / p.scale))
      ((y - p.velocity.2 * t) / p.scale) := by
  rw [phase_eq_valueAt, valueAt_eq_linearBetween p (Scalar.wrap_nonneg _ p.side_pos)
    (Scalar.wrap_nonneg _ p.side_pos), Scalar.wrap_eq_add, Scalar.wrap_eq_add, onRow_add_mul,
    linearBetween_onRow_add_mul]

theorem phase_add_size (hscale : p.scale ≠ 0) (x y t : ℝ) (i j : ℤ) :
    p.phase (x + i * p.size) (y + j * p.size) t = p.phase x y t := by
  have hplace : ∀ (z speed : ℝ) (k : ℤ), (z + k * p.size - speed * t) / p.scale =
      (z - speed * t) / p.scale + ((p.side * k : ℤ) : ℝ) := by
    intro z speed k
    rw [size, Scalar.real_ofNat, Scalar.real_mul]
    push_cast
    field_simp
    ring
  rw [phase_eq_linearBetween, phase_eq_linearBetween, hplace, hplace, onRow_add_mul,
    linearBetween_onRow_add_mul]

theorem phase_add_velocity (x y t dt : ℝ) :
    p.phase (x + p.velocity.1 * dt) (y + p.velocity.2 * dt) (t + dt) = p.phase x y t := by
  have hplace : ∀ z speed : ℝ, z + speed * dt - speed * (t + dt) = z - speed * t := by
    intro z speed
    ring
  rw [phase_eq_linearBetween, phase_eq_linearBetween, hplace, hplace]

end Plane

end PhaseScreen

namespace Atmosphere

/-- The pixels of the screens have a size, and all screens repeat after the same distance. -/
def Uniform (a : Atmosphere ℝ) : Prop :=
  ∀ p ∈ a.screens, p.scale ≠ 0 ∧ ∀ q ∈ a.screens, q.size = p.size

variable {a drawn : Atmosphere ℝ}

theorem phase_add_size (ha : a.Uniform) {p : PhaseScreen ℝ} (hp : p ∈ a.screens)
    (x y t wavelength : ℝ) (i j : ℤ) :
    a.phase (x + i * p.size) (y + j * p.size) t wavelength = a.phase x y t wavelength := by
  have hphases : a.screens.map (fun q => q.phase (x + i * p.size) (y + j * p.size) t) =
      a.screens.map (fun q => q.phase x y t) := by
    apply List.map_congr_left
    intro q hq
    obtain ⟨hscale, hsize⟩ := ha q hq
    rw [hsize p hp, q.phase_add_size hscale]
  rw [phase, hphases, phase]

/-- A screen has a pixel only if its pixels have a size. -/
theorem screenScale_ne_zero (side_pos : 0 < a.screenSide) : a.screenScale ≠ 0 := by
  intro hscale
  have hround : Scalar.round (0 : ℝ) = 0 := by
    change (if (0 : ℝ) < 0 then _ else ((⌊(0 : ℝ) + 1 / 2⌋ : ℤ) : ℝ)) = 0
    norm_num
  have hside : a.screenSide = ⌊Scalar.round (a.screenSize / a.screenScale)⌋₊ := rfl
  rw [hside, hscale, div_zero, hround, Nat.floor_zero] at side_pos
  exact lt_irrefl 0 side_pos

theorem uniform_of_build {settings : AtmosphereSettings ℝ} (hbuild : settings.build = .ok a) :
    a.Uniform := by
  obtain ⟨-, -, -, rfl⟩ := AtmosphereSettings.build_eq_ok_iff.1 hbuild
  simp [Uniform]

section Session

variable [RandomSource ℝ]

theorem uniform_of_instantiate? {cutoff : ℝ} (hdrawn : a.instantiate? cutoff = some drawn) :
    drawn.Uniform := by
  rw [instantiate?] at hdrawn
  split_ifs at hdrawn with hlayers hside hstorable
  · cases hdrawn
    simp [Uniform]
  · cases hdrawn
    intro p hp
    obtain ⟨hpside, hpscale, -⟩ := shape_of_mem_drawScreens a cutoff hside hp
    refine ⟨hpscale ▸ screenScale_ne_zero hside, ?_⟩
    intro q hq
    obtain ⟨hqside, hqscale, -⟩ := shape_of_mem_drawScreens a cutoff hside hq
    rw [PhaseScreen.size, PhaseScreen.size, hpside, hpscale, hqside, hqscale]

/-- Only a call for screens changes the screens, and it draws all of them alike. -/
theorem Uniform.after {s : Session ℝ} (hs : s.atmosphere.Uniform) (action : Action ℝ) :
    (s.after action).atmosphere.Uniform := by
  cases action with
  | instantiate cutoff =>
      rw [Session.after_instantiate]
      cases hdrawn : s.atmosphere.instantiate? cutoff with
      | none => exact hs
      | some drawn => exact uniform_of_instantiate? hdrawn
  | _ => exact hs

theorem uniform_of_actions {s : Session ℝ} (hs : s.atmosphere.Uniform)
    (actions : List (Action ℝ)) : (actions.foldl Session.after s).atmosphere.Uniform := by
  induction actions generalizing s with
  | nil => exact hs
  | cons action actions ih => exact ih (hs.after action)

/-- A screen repeats along both axes after its size, and it moves with the wind without change. The
phase through all screens of an atmosphere in use repeats after the size of any of them. -/
theorem phase_repeats :
    (∀ p : PhaseScreen ℝ, p.scale ≠ 0 → ∀ (x y t : ℝ) (i j : ℤ),
      p.phase (x + i * p.size) (y + j * p.size) t = p.phase x y t) ∧
    (∀ (p : PhaseScreen ℝ) (x y t dt : ℝ),
      p.phase (x + p.velocity.1 * dt) (y + p.velocity.2 * dt) (t + dt) = p.phase x y t) ∧
    ∀ (settings : AtmosphereSettings ℝ) (start : Atmosphere ℝ), settings.build = .ok start →
      ∀ (actions : List (Action ℝ)) (s : Session ℝ),
        actions.foldl Session.after ⟨start, none⟩ = s →
        ∀ p ∈ s.atmosphere.screens, ∀ (x y t wavelength : ℝ) (i j : ℤ),
          s.atmosphere.phase (x + i * (p.side * p.scale)) (y + j * (p.side * p.scale)) t
            wavelength = s.atmosphere.phase x y t wavelength := by
  refine ⟨fun p hscale => p.phase_add_size hscale, fun p => p.phase_add_velocity, ?_⟩
  rintro settings start hbuild actions s rfl p hp
  exact phase_add_size (uniform_of_actions (uniform_of_build hbuild) actions) hp

end Session

/-- The screen of the coarse exposure three sizes to the left and two up. -/
theorem phase_repeats_coarse : letI := countingSource
    ∃ (start : Atmosphere ℝ) (s : Session ℝ) (p : PhaseScreen ℝ),
      ExposureSettings.coarse.atmosphere.build = .ok start ∧
      [.instantiate 0].foldl Session.after ⟨start, none⟩ = s ∧ p ∈ s.atmosphere.screens ∧
      p.scale ≠ 0 ∧
      p.phase (1 / 4 + (-3 : ℤ) * p.size) (1 / 3 + (2 : ℤ) * p.size) 1 =
        p.phase (1 / 4) (1 / 3) 1 ∧
      s.atmosphere.phase (1 / 4 + (-3 : ℤ) * (p.side * p.scale))
        (1 / 3 + (2 : ℤ) * (p.side * p.scale)) 1 500 =
          s.atmosphere.phase (1 / 4) (1 / 3) 1 500 := by
  let _ := countingSource
  obtain ⟨start, hbuild⟩ := ExposureSettings.build_atmosphere_coarse
  obtain ⟨drawn, hdrawn⟩ :=
    (exists_screens_iff hbuild 0).2 (ExposureSettings.drawable_coarse hbuild)
  have hlayers : start.layers ≠ [] := by
    obtain ⟨-, -, -, rfl⟩ := AtmosphereSettings.build_eq_ok_iff.1 hbuild
    simp only [AtmosphereSettings.layers, TurbulenceProfile.layers, ExposureSettings.coarse,
      List.zip_cons_cons, List.zipWith_cons_cons]
    exact List.cons_ne_nil _ _
  obtain ⟨p, hp⟩ : ∃ p, p ∈ drawn.screens := by
    obtain ⟨-, side_pos, rfl⟩ := (instantiate?_eq_some_iff hlayers).1 hdrawn
    apply List.exists_mem_of_length_pos
    rw [length_drawScreens]
    exact List.length_pos_iff.2 hlayers
  have hafter : [.instantiate 0].foldl Session.after ⟨start, none⟩ =
      (⟨drawn, some ⟨start, 0⟩⟩ : Session ℝ) := by
    rw [List.foldl_cons, List.foldl_nil, Session.after_instantiate]
    simp only [hdrawn]
  have hscale := (uniform_of_instantiate? hdrawn p hp).1
  obtain ⟨hscreen, -, hatmosphere⟩ := phase_repeats
  exact ⟨start, _, p, hbuild, hafter, hp, hscale, hscreen p hscale _ _ _ _ _,
    hatmosphere _ start hbuild _ _ hafter p hp _ _ _ _ _ _⟩

end Atmosphere

end Seeing
