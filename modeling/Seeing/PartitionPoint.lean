/-!
# Partition points

When a test holds of the first counts below `n` and fails of the others, `partitionPoint n test` is
the number of those it holds of. It is found by halving, with one test for each halving.
-/

namespace Seeing

/-- The search among `size` counts from `base` on: the test is known to hold below `base`, and the
search ends with one count left. -/
def partitionFrom (test : Nat → Bool) (base size : Nat) : Nat :=
  if size ≤ 1 then
    if size = 1 ∧ test base then base + 1 else base
  else
    let half := size / 2
    partitionFrom test (if test (base + half) then base + half else base) (size - half)
termination_by size
decreasing_by omega

/-- The number of counts below `n` that come before the first that fails the test. -/
def partitionPoint (n : Nat) (test : Nat → Bool) : Nat := partitionFrom test 0 n

end Seeing
