import Seeing.Proofs.Moments.Masses

/-!
# Motions that take the axes to the axes

A motion of the plane that takes the axes to the axes, each to itself or to the other one
and in one of its two senses, turns a covariance by a change of sign of the mixed moment
and, if the axes are exchanged, an exchange of the other two: `turn_eq_or`. So it keeps
what an iteration asks of a covariance: the determinant, the trace, the inverse, the
entries up to their sign, and whether the matrix is positive. The test by the leading
minors looks at one axis only, but means the same as `isPositive_iff_trace`, which does
not.
-/

namespace Seeing

/-- The criterion of positive definiteness that treats the axes alike. -/
theorem Covariance.isPositive_iff_trace {c : Covariance ℝ} :
    c.IsPositive ↔ 0 < c.trace ∧ 0 < c.det := by
  constructor
  · intro hc
    exact ⟨hc.trace_pos, (isPositive_iff.1 hc).2⟩
  · rintro ⟨htrace, hdet⟩
    refine isPositive_iff.2 ⟨?_, hdet⟩
    rw [det_eq] at hdet
    rw [trace_eq] at htrace
    have hproduct : 0 < c.xx * c.yy := by
      have := mul_self_nonneg c.xy
      linarith
    by_contra hxx
    have hyy : 0 < c.yy := by linarith
    exact absurd (mul_nonpos_of_nonpos_of_nonneg (not_lt.1 hxx) hyy.le) (not_le.2 hproduct)

/-- A motion of the plane that takes the axes to the axes: the entries of an orthogonal matrix
with one entry in every row and column that is not zero, and the place of the origin. -/
structure Motion where
  xx : ℝ
  xy : ℝ
  yx : ℝ
  yy : ℝ
  x : ℝ
  y : ℝ
  axes : (xy = 0 ∧ yx = 0 ∧ xx * xx = 1 ∧ yy * yy = 1) ∨
    (xx = 0 ∧ yy = 0 ∧ xy * xy = 1 ∧ yx * yx = 1)

namespace Motion

variable (m : Motion)

/-- The first component of a vector after the motion. -/
def alongX (dx dy : ℝ) : ℝ := m.xx * dx + m.xy * dy

/-- The second component of a vector after the motion. -/
def alongY (dx dy : ℝ) : ℝ := m.yx * dx + m.yy * dy

/-- Where a point comes to. -/
def place (p : ℝ × ℝ) : ℝ × ℝ := (m.alongX p.1 p.2 + m.x, m.alongY p.1 p.2 + m.y)

/-- What becomes of second moments. -/
def turn (c : Covariance ℝ) : Covariance ℝ :=
  ⟨m.xx * m.xx * c.xx + 2 * (m.xx * m.xy) * c.xy + m.xy * m.xy * c.yy,
    m.xx * m.yx * c.xx + (m.xx * m.yy + m.xy * m.yx) * c.xy + m.xy * m.yy * c.yy,
    m.yx * m.yx * c.xx + 2 * (m.yx * m.yy) * c.xy + m.yy * m.yy * c.yy⟩

/-- What becomes of a weight. -/
def weight (w : Weight ℝ) : Weight ℝ :=
  ⟨(m.place (w.x, w.y)).1, (m.place (w.x, w.y)).2, m.turn w.covariance⟩

/-- One if the axes keep their places, minus one if they are exchanged. -/
def parity : ℝ := m.xx * m.xx - m.xy * m.xy

/-- One if the diagonals keep their places, minus one if they are exchanged. -/
def sense : ℝ := m.xx * m.yy + m.xy * m.yx

theorem sense_mul_sense : m.sense * m.sense = 1 := by
  obtain ⟨hxy, hyx, hxx, hyy⟩ | ⟨hxx, hyy, hxy, hyx⟩ := m.axes
  · rw [sense, hxy, hyx]
    linear_combination m.yy * m.yy * hxx + hyy
  · rw [sense, hxx, hyy]
    linear_combination m.yx * m.yx * hxy + hyx

theorem abs_sense : |m.sense| = 1 := by
  rw [← abs_one, ← sq_eq_sq_iff_abs_eq_abs, sq, m.sense_mul_sense, one_pow]

/-- Second moments keep their entries, up to the sense of the mixed one and the places of the
other two. -/
theorem turn_eq_or :
    (m.parity = 1 ∧ ∀ c, m.turn c = ⟨c.xx, m.sense * c.xy, c.yy⟩) ∨
      (m.parity = -1 ∧ ∀ c, m.turn c = ⟨c.yy, m.sense * c.xy, c.xx⟩) := by
  obtain ⟨hxy, hyx, hxx, hyy⟩ | ⟨hxx, hyy, hxy, hyx⟩ := m.axes
  · refine .inl ⟨?_, fun c => ?_⟩
    · rw [parity, hxx, hxy, mul_zero, sub_zero]
    · simp [turn, sense, hxx, hyy, hxy, hyx]
  · refine .inr ⟨?_, fun c => ?_⟩
    · rw [parity, hxy, hxx, mul_zero, zero_sub]
    · simp [turn, sense, hxx, hyy, hxy, hyx]

theorem alongX_sq_add_alongY_sq (dx dy : ℝ) :
    m.alongX dx dy * m.alongX dx dy + m.alongY dx dy * m.alongY dx dy =
      dx * dx + dy * dy := by
  rw [alongX, alongY]
  obtain ⟨hxy, hyx, hxx, hyy⟩ | ⟨hxx, hyy, hxy, hyx⟩ := m.axes
  · rw [hxy, hyx]
    linear_combination dx * dx * hxx + dy * dy * hyy
  · rw [hxx, hyy]
    linear_combination dy * dy * hxy + dx * dx * hyx

variable (c : Covariance ℝ)

theorem det_turn : (m.turn c).det = c.det := by
  obtain ⟨-, hturn⟩ | ⟨-, hturn⟩ := m.turn_eq_or
  all_goals
    rw [hturn, Covariance.det_eq, Covariance.det_eq]
    linear_combination -(c.xy * c.xy) * m.sense_mul_sense

theorem trace_turn : (m.turn c).trace = c.trace := by
  obtain ⟨-, hturn⟩ | ⟨-, hturn⟩ := m.turn_eq_or
  · rw [hturn]
    rfl
  · rw [hturn]
    exact add_comm _ _

theorem inverse_turn : (m.turn c).inverse = m.turn c.inverse := by
  obtain ⟨-, hturn⟩ | ⟨-, hturn⟩ := m.turn_eq_or
  all_goals
    rw [Covariance.inverse, m.det_turn, hturn, hturn, Covariance.inverse]
    simp only [Covariance.mk.injEq, true_and, and_true]
    ring

theorem inverse?_turn : (m.turn c).inverse? = c.inverse?.map m.turn := by
  cases hinverse : c.inverse? with
  | none =>
      rw [Covariance.inverse?_eq_none_iff] at hinverse
      rw [Option.map_none, Covariance.inverse?_eq_none_iff, det_turn, hinverse]
  | some inverse =>
      obtain ⟨hdet, rfl⟩ := c.inverse?_eq_some_iff.1 hinverse
      rw [Option.map_some, Covariance.inverse?_eq_some_iff, det_turn, inverse_turn]
      exact ⟨hdet, rfl⟩

theorem isPositive_turn : (m.turn c).IsPositive ↔ c.IsPositive := by
  rw [Covariance.isPositive_iff_trace, Covariance.isPositive_iff_trace, trace_turn, det_turn]

theorem distance_turn (c' : Covariance ℝ) :
    (m.turn c).distance (m.turn c') = c.distance c' := by
  have hmixed : |m.sense * c.xy - m.sense * c'.xy| = |c.xy - c'.xy| := by
    rw [← mul_sub, abs_mul, abs_sense, one_mul]
  rw [Covariance.distance_eq, Covariance.distance_eq]
  obtain ⟨-, hturn⟩ | ⟨-, hturn⟩ := m.turn_eq_or
  · rw [hturn, hturn, hmixed]
  · rw [hturn, hturn, hmixed, max_right_comm, max_comm |c.yy - c'.yy|, max_right_comm]

theorem difference_turn : (m.turn c).xx - (m.turn c).yy = m.parity * (c.xx - c.yy) := by
  obtain ⟨hparity, hturn⟩ | ⟨hparity, hturn⟩ := m.turn_eq_or
  · rw [hturn, hparity, one_mul]
  · rw [hturn, hparity]
    ring

theorem xy_turn : (m.turn c).xy = m.sense * c.xy := by
  obtain ⟨-, hturn⟩ | ⟨-, hturn⟩ := m.turn_eq_or
  all_goals rw [hturn]

theorem quadratic_turn (dx dy : ℝ) :
    (m.turn c).quadratic (m.alongX dx dy) (m.alongY dx dy) = c.quadratic dx dy := by
  simp only [Covariance.quadratic_eq, turn, alongX, alongY]
  obtain ⟨hxy, hyx, hxx, hyy⟩ | ⟨hxx, hyy, hxy, hyx⟩ := m.axes
  · grind
  · grind

/-- No motion at all. -/
noncomputable def still : Motion := ⟨1, 0, 0, 1, 0, 0, .inl ⟨rfl, rfl, by ring, by ring⟩⟩

/-- The exchange of the axes. -/
noncomputable def exchange : Motion :=
  ⟨0, 1, 1, 0, 0, 0, .inr ⟨rfl, rfl, by ring, by ring⟩⟩

/-- The reversal of the first axis that takes the origin to the given place on it. -/
noncomputable def mirror (x : ℝ) : Motion :=
  ⟨-1, 0, 0, 1, x, 0, .inl ⟨rfl, rfl, by ring, by ring⟩⟩

/-- The reversal of the second axis that takes the origin to the given place on it. -/
noncomputable def flip (y : ℝ) : Motion :=
  ⟨1, 0, 0, -1, 0, y, .inl ⟨rfl, rfl, by ring, by ring⟩⟩

variable (p : ℝ × ℝ)

theorem place_still : still.place p = p :=
  Prod.ext (show 1 * p.1 + 0 * p.2 + 0 = p.1 by ring)
    (show 0 * p.1 + 1 * p.2 + 0 = p.2 by ring)

theorem place_exchange : exchange.place p = p.swap :=
  Prod.ext (show 0 * p.1 + 1 * p.2 + 0 = p.2 by ring)
    (show 1 * p.1 + 0 * p.2 + 0 = p.1 by ring)

theorem place_mirror (x : ℝ) : (mirror x).place p = (x - p.1, p.2) :=
  Prod.ext (show -1 * p.1 + 0 * p.2 + x = x - p.1 by ring)
    (show 0 * p.1 + 1 * p.2 + 0 = p.2 by ring)

theorem place_flip (y : ℝ) : (flip y).place p = (p.1, y - p.2) :=
  Prod.ext (show 1 * p.1 + 0 * p.2 + 0 = p.1 by ring)
    (show 0 * p.1 + -1 * p.2 + y = y - p.2 by ring)

end Motion

end Seeing
