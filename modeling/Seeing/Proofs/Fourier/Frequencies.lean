import Seeing.Proofs.Fourier.Centre

/-!
# Frequencies in their order

The frequencies of a transform start with zero and end with the negative ones. `Grid.recentre` cuts
them where `sampleFrequencies` goes over to the negative ones, for even and for odd sides: along
both axes of a square the recentred frequencies ascend in equal steps, with zero in the middle.

As a motion of cells `Grid.recentre` adds half a side to the column and to the row, around the
edges. Two halves of an even side make a whole one.
-/

namespace Seeing

theorem get_sampleFrequencies {n : ℕ} (d : ℝ) (i : Fin n) :
    (sampleFrequencies n d).get i =
      (if i.val ≤ (n - 1) / 2 then (i : ℝ) else i - n) * (1 / (n * d)) := by
  rw [sampleFrequencies, Vector.get_ofFn]
  split_ifs <;> simp

/-- Numbers that ascend in equal steps, with zero in the middle. -/
structure Ascends {n : ℕ} (f : Fin n → ℝ) (step : ℝ) : Prop where
  strictMono : StrictMono f
  step_eq : ∀ i k, k.val = i.val + 1 → f k = f i + step
  middle : ∀ i, i.val = n / 2 → f i = 0

theorem Ascends.of_eq {n : ℕ} {f : Fin n → ℝ} {step : ℝ} (hstep : 0 < step)
    (hf : ∀ i, f i = (i - (n / 2 : ℕ)) * step) : Ascends f step where
  strictMono i k hik := by
    have hlt : (i : ℝ) < k := Nat.cast_lt.2 hik
    rw [hf, hf]
    gcongr
  step_eq i k hk := by
    rw [hf, hf, hk]
    push_cast
    ring
  middle i hi := by rw [hf, hi, sub_self, zero_mul]

namespace Grid

variable {β : Type} {n : ℕ}

/-- The frequency of every column of a transform. -/
noncomputable def columnFrequencies (n : ℕ) (d : ℝ) : Grid n n ℝ :=
  ofFn fun i _ => (sampleFrequencies n d).get i

/-- The frequency of every row of a transform. -/
noncomputable def rowFrequencies (n : ℕ) (d : ℝ) : Grid n n ℝ :=
  ofFn fun _ j => (sampleFrequencies n d).get j

variable [NeZero n]

/-- The motion of the cells: half a side further along both axes, around the edges. -/
def recentring (n : ℕ) [NeZero n] : Equiv.Perm (Fin n × Fin n) :=
  (Equiv.addRight (middle n)).prodCongr (Equiv.addRight (middle n))

theorem get_recentre_recentring (g : Grid n n β) (c : Fin n × Fin n) :
    g.recentre.get (recentring n c).1 (recentring n c).2 = g.get c.1 c.2 := by
  change g.recentre.get (c.1 + middle n) (c.2 + middle n) = g.get c.1 c.2
  rw [get_recentre, add_sub_cancel_right, add_sub_cancel_right]

theorem get_recentre_middle (g : Grid n n β) :
    g.recentre.get (middle n) (middle n) = g.get 0 0 := by
  rw [get_recentre, sub_self]

/-- The values are only moved, each with as many copies as before. -/
theorem perm_recentre (g : Grid n n β) :
    g.recentre.toArray.toList.Perm g.toArray.toList := by
  have hmove : ((List.finRange n).map (· - middle n)).Perm (List.finRange n) :=
    Equiv.Perm.map_finRange_perm (Equiv.subRight (middle n))
  rw [toList_toArray, toList_toArray]
  simp only [get_recentre]
  calc
    (List.finRange n).flatMap (fun j => (List.finRange n).map fun i =>
        g.get (i - middle n) (j - middle n))
      = ((List.finRange n).map (· - middle n)).flatMap fun j =>
          ((List.finRange n).map (· - middle n)).map fun i => g.get i j := by
        simp only [List.flatMap_map, List.map_map, Function.comp_def]
    List.Perm _ ((List.finRange n).flatMap fun j => (List.finRange n).map fun i => g.get i j) :=
        hmove.flatMap fun j _ => hmove.map _

theorem recentre_recentre (hn : Even n) (g : Grid n n β) : g.recentre.recentre = g := by
  apply ext_get
  intro i j
  have hback : ∀ k : Fin n, k - middle n - middle n = k := by
    intro k
    rw [sub_eq_add_neg k, neg_middle hn, add_sub_cancel_right]
  rw [get_recentre, get_recentre, hback, hback]

/-- The frequency that comes to a place, counted from the middle. -/
theorem get_sampleFrequencies_sub_middle (d : ℝ) (i : Fin n) :
    (sampleFrequencies n d).get (i - middle n) = (i - (n / 2 : ℕ)) * (1 / (n * d)) := by
  have hlt := i.isLt
  rw [get_sampleFrequencies, val_sub_middle]
  congr 1
  by_cases hlower : i.val < n / 2
  · -- below the middle: from the upper half, where the frequencies are negative
    rw [Nat.mod_eq_of_lt (by omega), if_neg (by omega), Nat.cast_sub (by omega)]
    push_cast
    ring
  · have hwrap : (i.val + n - n / 2) % n = i.val - n / 2 := by
      rw [show i.val + n - n / 2 = i.val - n / 2 + n by omega, Nat.add_mod_right,
        Nat.mod_eq_of_lt (by omega)]
    rw [hwrap, if_pos (by omega), Nat.cast_sub (by omega)]

theorem ascends_columnFrequencies {d : ℝ} (hd : 0 < d) (j : Fin n) :
    Ascends (fun i => (columnFrequencies n d).recentre.get i j) (1 / (n * d)) := by
  have hn : (0 : ℝ) < n := Nat.cast_pos.2 (Nat.pos_of_neZero n)
  apply Ascends.of_eq (by positivity)
  intro i
  rw [get_recentre, columnFrequencies, get_ofFn, get_sampleFrequencies_sub_middle]

theorem ascends_rowFrequencies {d : ℝ} (hd : 0 < d) (i : Fin n) :
    Ascends (fun j => (rowFrequencies n d).recentre.get i j) (1 / (n * d)) := by
  have hn : (0 : ℝ) < n := Nat.cast_pos.2 (Nat.pos_of_neZero n)
  apply Ascends.of_eq (by positivity)
  intro j
  rw [get_recentre, rowFrequencies, get_ofFn, get_sampleFrequencies_sub_middle]

/-- A recentred square is the square with its cells permuted, every one moved by half a side along
both axes and around the edges. So the values stay, and that of zero frequency comes to the middle.
A second time brings the cells of an even side back. Along both axes, and for even and odd sides,
the frequencies of the recentred cells ascend in steps of one part of the sampled length, with zero
in the middle. -/
theorem recentre_permutes (n : ℕ) [NeZero n] :
    (∀ c : Fin n × Fin n, (recentring n c).1.val = (c.1.val + n / 2) % n ∧
      (recentring n c).2.val = (c.2.val + n / 2) % n) ∧
    (∀ (β : Type) (g : Grid n n β),
      (∀ c, g.recentre.get (recentring n c).1 (recentring n c).2 = g.get c.1 c.2) ∧
      g.recentre.toArray.toList.Perm g.toArray.toList ∧
      (∀ i, i.val = n / 2 → g.recentre.get i i = g.get 0 0) ∧
      (Even n → g.recentre.recentre = g)) ∧
    ∀ d : ℝ, 0 < d →
      (∀ j, Ascends (fun i => (columnFrequencies n d).recentre.get i j) (1 / (n * d))) ∧
      ∀ i, Ascends (fun j => (rowFrequencies n d).recentre.get i j) (1 / (n * d)) := by
  refine ⟨fun c => ⟨Fin.val_add _ _, Fin.val_add _ _⟩, ?_, ?_⟩
  · intro β g
    refine ⟨get_recentre_recentring g, perm_recentre g, ?_, fun hn => recentre_recentre hn g⟩
    intro i hi
    obtain rfl : i = middle n := Fin.ext hi
    exact get_recentre_middle g
  · intro d hd
    exact ⟨ascends_columnFrequencies hd, ascends_rowFrequencies hd⟩

/-- Five samples half a metre apart: the frequency of the third column is zero and that of the
fourth two fifths. Squares of four samples come back. -/
theorem recentre_permutes_five :
    (0 : ℝ) < 1 / 2 ∧ (columnFrequencies 5 (1 / 2)).recentre.get 2 0 = 0 ∧
      (columnFrequencies 5 (1 / 2)).recentre.get 3 0 = 2 / 5 ∧ Even 4 ∧
      (columnFrequencies 4 1).recentre.recentre = columnFrequencies 4 1 := by
  have heven : Even 4 := by decide
  have hpos : (0 : ℝ) < 1 / 2 := by norm_num
  have hcolumns := ((recentre_permutes 5).2.2 (1 / 2) hpos).1 0
  have hmiddle : (columnFrequencies 5 (1 / 2)).recentre.get 2 0 = 0 := hcolumns.middle 2 rfl
  have hnext := hcolumns.step_eq 2 3 rfl
  refine ⟨hpos, hmiddle, ?_, heven, ((recentre_permutes 4).2.1 ℝ _).2.2.2 heven⟩
  rw [hnext, hmiddle]
  norm_num

end Grid

end Seeing
