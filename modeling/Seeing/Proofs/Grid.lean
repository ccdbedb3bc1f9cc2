import Mathlib
import Seeing.Grid

/-!
# Grids row after row

The values of a grid, in the order in which they are kept, are its rows one after
the other: `Grid.toList_toArray`.

`Grid.transposeInPlace` exchanges the cells of a square in pairs, row after row.
The pairs never meet: after the first `m` rows the cells of these rows and columns
hold the values of their mirror images, and all others their own. From this
invariant the loop is `Grid.transpose`.

Squares are symmetric about their middle, as `MirrorSymmetric` says, or about their first
cell and then around the edges, as `NodeSymmetric` says.
-/

namespace Seeing

namespace Grid

variable {β : Type} {w h n : ℕ}

theorem toList_toArray (g : Grid w h β) :
    g.toArray.toList =
      (List.finRange h).flatMap fun j => (List.finRange w).map fun i => g.get i j := by
  have hcells : g.toArray.toList = List.ofFn fun k : Fin (h * w) => g.cells[k] := by
    apply List.ext_getElem
    · simp
    · intro k _ _
      simp [toArray]
  rw [hcells, List.ofFn_mul, List.ofFn_eq_map]
  simp only [List.ofFn_eq_map, List.flatMap, get]
  rfl

theorem get_column_row (g : Grid w h β) {k : ℕ} (hk : k < h * w) :
    g.get ⟨k % w, column_lt hk⟩ ⟨k / w, row_lt hk⟩ = g.cells[k] := by
  simp only [get, Nat.div_add_mod']

section SetAt

variable {σ : Type} (place : σ → ℕ) (value : σ → β)

/-- A cell that is not written keeps its value. -/
theorem get_foldl_setAt_of_ne (l : List σ) (g : Grid w h β) (i : Fin w) (j : Fin h)
    (hne : ∀ s ∈ l, place s ≠ j.val * w + i.val) :
    (l.foldl (fun g s => g.setAt (place s) (value s)) g).get i j = g.get i j := by
  induction l generalizing g with
  | nil => rfl
  | cons s l ih =>
      rw [List.foldl_cons, ih _ fun t ht => hne t (List.mem_cons_of_mem s ht), get_setAt,
        if_neg (hne s List.mem_cons_self)]

/-- A cell that is written, always with the same value, gets that value. -/
theorem get_foldl_setAt_of_mem (l : List σ) (g : Grid w h β) (i : Fin w) (j : Fin h)
    (b : β) (hvalue : ∀ s ∈ l, place s = j.val * w + i.val → value s = b)
    (hmem : ∃ s ∈ l, place s = j.val * w + i.val) :
    (l.foldl (fun g s => g.setAt (place s) (value s)) g).get i j = b := by
  induction l generalizing g with
  | nil => simp at hmem
  | cons s l ih =>
      rw [List.foldl_cons]
      by_cases hrest : ∃ t ∈ l, place t = j.val * w + i.val
      · exact ih _ (fun t ht => hvalue t (List.mem_cons_of_mem s ht)) hrest
      · have hs : place s = j.val * w + i.val := by
          rcases hmem with ⟨t, ht, htp⟩
          rcases List.mem_cons.1 ht with rfl | ht
          · exact htp
          · exact absurd ⟨t, ht, htp⟩ hrest
        rw [get_foldl_setAt_of_ne place value l _ i j fun t ht htp => hrest ⟨t, ht, htp⟩,
          get_setAt, if_pos hs, hvalue s List.mem_cons_self hs]

end SetAt

/-- Exchanging two cells across the diagonal: these two read their mirror
images. -/
theorem get_exchange (g : Grid n n β) (i j a b : Fin n) :
    (g.exchange i j).get a b =
      if (a = i ∧ b = j) ∨ (a = j ∧ b = i) then g.get b a else g.get a b := by
  have hget : (g.exchange i j).get a b =
      if b.val * n + a.val = j.val * n + i.val then g.get j i
      else if b.val * n + a.val = i.val * n + j.val then g.get i j else g.get a b := by
    simp only [get, exchange, Vector.getElem_swap]
  rw [hget]
  by_cases hij : b.val * n + a.val = j.val * n + i.val
  · obtain ⟨rfl, rfl⟩ := index_inj hij
    simp
  · by_cases hji : b.val * n + a.val = i.val * n + j.val
    · obtain ⟨rfl, rfl⟩ := index_inj hji
      simp [hij]
    · have hne : ¬((a = i ∧ b = j) ∨ (a = j ∧ b = i)) := by
        rintro (⟨rfl, rfl⟩ | ⟨rfl, rfl⟩)
        · exact hij rfl
        · exact hji rfl
      rw [if_neg hij, if_neg hji, if_neg hne]

/-- The first `m` exchanges of a row. -/
theorem get_fold_exchange (g : Grid n n β) (j a b : Fin n) (m : ℕ)
    (hm : j.val + 1 + m ≤ n) :
    (Nat.fold m (fun k hk (g : Grid n n β) =>
        g.exchange ⟨j.val + 1 + k, by omega⟩ j) g).get a b =
      if (b = j ∧ j < a ∧ a < j.val + 1 + m) ∨ (a = j ∧ j < b ∧ b < j.val + 1 + m)
      then g.get b a else g.get a b := by
  induction m generalizing a b with
  | zero =>
    rw [Nat.fold_zero, if_neg]
    omega
  | succ m ih =>
    rw [Nat.fold_succ, get_exchange, ih a b (by omega), ih b a (by omega)]
    simp only [Fin.ext_iff, Fin.lt_def]
    by_cases hlast : (a.val = j.val + 1 + m ∧ b.val = j.val) ∨
        (a.val = j.val ∧ b.val = j.val + 1 + m)
    · -- The mirror images of this pair have not been exchanged before.
      rw [if_pos hlast, if_neg (by omega), if_pos (by omega)]
    · rw [if_neg hlast]
      congr 1
      apply propext
      omega

theorem get_exchangeRow (g : Grid n n β) (j a b : Fin n) :
    (g.exchangeRow j).get a b =
      if (b = j ∧ j < a) ∨ (a = j ∧ j < b) then g.get b a else g.get a b := by
  rw [exchangeRow, get_fold_exchange g j a b _ (by omega)]
  congr 1
  apply propext
  omega

/-- The invariant of the loop over the rows. -/
theorem get_fold_exchangeRow (g : Grid n n β) (a b : Fin n) (m : ℕ) (hm : m ≤ n) :
    (Nat.fold m (fun j hj (g : Grid n n β) => g.exchangeRow ⟨j, by omega⟩) g).get a b =
      if a < m ∨ b < m then g.get b a else g.get a b := by
  induction m generalizing a b with
  | zero =>
    rw [Nat.fold_zero, if_neg]
    omega
  | succ m ih =>
    rw [Nat.fold_succ, get_exchangeRow, ih a b (by omega), ih b a (by omega)]
    simp only [Fin.ext_iff, Fin.lt_def]
    by_cases hrow : (b.val = m ∧ m < a.val) ∨ (a.val = m ∧ m < b.val)
    · rw [if_pos hrow, if_neg (by omega), if_pos (by omega)]
    · rw [if_neg hrow]
      by_cases hab : a = b
      · -- A cell of the diagonal is its own mirror image.
        rw [hab, ite_self, ite_self]
      · have hne : a.val ≠ b.val := fun h => hab (Fin.ext h)
        congr 1
        apply propext
        omega

/-- The loop exchanges columns and rows. -/
theorem transposeInPlace_eq_transpose (g : Grid n n β) :
    g.transposeInPlace = g.transpose := by
  apply ext_get
  intro a b
  rw [transposeInPlace, get_fold_exchangeRow g a b n le_rfl, if_pos (Or.inl a.isLt),
    get_transpose]

end Grid

section Symmetry

variable {β : Type} {n : ℕ}

/-- A square that stays the same when its columns are mirrored at the middle, and when
columns and rows are exchanged. -/
structure MirrorSymmetric (f : Fin n → Fin n → β) : Prop where
  rev_column : ∀ i j, f i.rev j = f i j
  exchange : ∀ i j, f j i = f i j

/-- A square that stays the same when its columns are mirrored at the first one, around
the edges, and when columns and rows are exchanged. -/
structure NodeSymmetric [NeZero n] (f : Fin n → Fin n → β) : Prop where
  neg_column : ∀ i j, f (-i) j = f i j
  exchange : ∀ i j, f j i = f i j

end Symmetry

end Seeing
