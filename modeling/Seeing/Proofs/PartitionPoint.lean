import Mathlib.Data.Nat.Notation
import Seeing.PartitionPoint

/-!
# The partition point of a test

If a test that holds of a count holds of all smaller ones, the search by halving ends at
the number of the counts it holds of: `lt_partitionPoint_iff`. Whatever the test, the
search looks at the two ends: `partitionPoint_pos` and `partitionPoint_lt`.
-/

namespace Seeing

variable {test : ℕ → Bool}

/-- The search ends among the counts it is given, and separates those that pass the test
from those that fail it. -/
theorem partitionFrom_spec (base size : ℕ)
    (htest : ∀ i j, i ≤ j → j < base + size → test j → test i) :
    (base ≤ partitionFrom test base size ∧ partitionFrom test base size ≤ base + size) ∧
      ∀ i, base ≤ i → i < base + size → (test i ↔ i < partitionFrom test base size) := by
  induction size using Nat.strongRecOn generalizing base with
  | ind size ih =>
      rw [partitionFrom]
      by_cases hsmall : size ≤ 1
      · rw [if_pos hsmall]
        by_cases hone : size = 1 ∧ test base
        · rw [if_pos hone]
          refine ⟨by omega, ?_⟩
          intro i hbase hi
          obtain rfl : i = base := by omega
          simp [hone.2]
        · rw [if_neg hone]
          refine ⟨by omega, ?_⟩
          intro i hbase hi
          obtain rfl : i = base := by omega
          have hfails : ¬test i := fun htrue => hone ⟨by omega, htrue⟩
          simp [hfails]
      · rw [if_neg hsmall]
        dsimp only
        by_cases hhalf : test (base + size / 2)
        · -- what lies below the middle passes with it
          rw [if_pos hhalf]
          obtain ⟨hrange, hsplit⟩ := ih (size - size / 2) (by omega) (base + size / 2)
            fun i j hij hj => htest i j hij (by omega)
          refine ⟨by omega, ?_⟩
          intro i hbase hi
          by_cases hi' : i < base + size / 2
          · exact iff_of_true (htest i _ (Nat.le_of_lt hi') (by omega) hhalf) (by omega)
          · exact hsplit i (by omega) (by omega)
        · -- what lies above the middle fails with it
          rw [if_neg hhalf]
          obtain ⟨hrange, hsplit⟩ := ih (size - size / 2) (by omega) base
            fun i j hij hj => htest i j hij (by omega)
          refine ⟨by omega, ?_⟩
          intro i hbase hi
          by_cases hi' : i < base + (size - size / 2)
          · exact hsplit i hbase hi'
          · have hfails : ¬test i := fun htrue => hhalf (htest _ i (by omega) hi htrue)
            exact iff_of_false hfails (by omega)

variable {n : ℕ}

/-- The counts that pass the test are those below the partition point. -/
theorem lt_partitionPoint_iff (htest : ∀ i j, i ≤ j → j < n → test j → test i) {i : ℕ}
    (hi : i < n) : i < partitionPoint n test ↔ test i :=
  ((partitionFrom_spec 0 n (by simpa using htest)).2 i (Nat.zero_le i) (by simpa using hi)).symm

/-- Nothing comes before the first count when none passes the test. -/
theorem partitionPoint_eq_zero (htest : ∀ i < n, ¬test i) : partitionPoint n test = 0 := by
  rcases Nat.eq_zero_or_pos n with rfl | hpos
  · rw [partitionPoint, partitionFrom]
    rfl
  · have hmonotone : ∀ i j, i ≤ j → j < n → test j → test i :=
      fun i j _ hj htrue => absurd htrue (htest j hj)
    apply Nat.eq_zero_of_not_pos
    intro hplace
    exact htest 0 hpos ((lt_partitionPoint_iff hmonotone hpos).1 hplace)

/-- Whatever the test, a search that passes its first count ends beyond it, and one that
fails its last count ends there or before. -/
theorem partitionFrom_ends (test : ℕ → Bool) (base : ℕ) {size : ℕ} (hsize : 0 < size) :
    (test base → base < partitionFrom test base size) ∧
      (¬test (base + size - 1) → partitionFrom test base size < base + size) ∧
        base ≤ partitionFrom test base size ∧
          partitionFrom test base size ≤ base + size := by
  induction size using Nat.strongRecOn generalizing base with
  | ind size ih =>
      rw [partitionFrom]
      by_cases hone : size ≤ 1
      · obtain rfl : size = 1 := by omega
        by_cases htest : test base
        · simp [htest]
        · simp [htest]
      · rw [if_neg hone]
        dsimp only
        by_cases hhalf : test (base + size / 2)
        · rw [if_pos hhalf]
          obtain ⟨-, hlast, hrange⟩ :=
            ih (size - size / 2) (by omega) (base + size / 2) (by omega)
          rw [show base + size / 2 + (size - size / 2) = base + size by omega] at hlast hrange
          exact ⟨fun _ => by omega, hlast, by omega⟩
        · rw [if_neg hhalf]
          obtain ⟨hfirst, -, hrange⟩ := ih (size - size / 2) (by omega) base (by omega)
          exact ⟨hfirst, fun _ => by omega, by omega⟩

theorem partitionPoint_pos (hn : 0 < n) (hfirst : test 0) : 0 < partitionPoint n test :=
  (partitionFrom_ends test 0 hn).1 hfirst

theorem partitionPoint_lt (hn : 0 < n) (hlast : ¬test (n - 1)) : partitionPoint n test < n := by
  have hend := (partitionFrom_ends test 0 hn).2.1
  rw [Nat.zero_add] at hend
  exact hend hlast

end Seeing
