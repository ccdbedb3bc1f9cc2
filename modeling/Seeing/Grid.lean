/-!
# Rectangular grids

`Grid w h β` holds one value for each of `w` columns and `h` rows, row after row. Cells are read by
column and row, `g.get i j`, and a grid is made from its values by `Grid.ofFn`; `get_ofFn` and `ext`
say that this is all there is to a grid.
-/

namespace Seeing

/-- A value for each of `w` columns and `h` rows. -/
structure Grid (w h : Nat) (β : Type) where
  /-- The values row after row. -/
  cells : Vector β (h * w)

namespace Grid

variable {β γ : Type} {w h n : Nat}

theorem index_lt (i : Fin w) (j : Fin h) : j.val * w + i.val < h * w := by
  have hj : (j.val + 1) * w ≤ h * w := Nat.mul_le_mul_right w j.isLt
  have hi := i.isLt
  rw [Nat.add_mul, Nat.one_mul] at hj
  omega

theorem column_lt {k : Nat} (hk : k < h * w) : k % w < w := by
  apply Nat.mod_lt
  rcases Nat.eq_zero_or_pos w with rfl | hw
  · simp at hk
  · exact hw

theorem row_lt {k : Nat} (hk : k < h * w) : k / w < h :=
  Nat.div_lt_of_lt_mul (by rwa [Nat.mul_comm] at hk)

/-- The value in column `i` and row `j`. -/
def get (g : Grid w h β) (i : Fin w) (j : Fin h) : β :=
  have := index_lt i j
  g.cells[j.val * w + i.val]

/-- The grid of the values of a function of column and row. -/
def ofFn (f : Fin w → Fin h → β) : Grid w h β :=
  ⟨Vector.ofFn fun k => f ⟨k.val % w, column_lt k.isLt⟩ ⟨k.val / w, row_lt k.isLt⟩⟩

@[simp] theorem get_ofFn (f : Fin w → Fin h → β) (i : Fin w) (j : Fin h) :
    (ofFn f).get i j = f i j := by
  have hw : 0 < w := Nat.lt_of_le_of_lt (Nat.zero_le _) i.isLt
  have hi : (j.val * w + i.val) % w = i.val := by
    rw [Nat.mul_comm, Nat.mul_add_mod, Nat.mod_eq_of_lt i.isLt]
  have hj : (j.val * w + i.val) / w = j.val := by
    rw [Nat.mul_comm, Nat.mul_add_div hw, Nat.div_eq_of_lt i.isLt, Nat.add_zero]
  simp [get, ofFn, hi, hj]

theorem ext_get {a b : Grid w h β} (hab : ∀ i j, a.get i j = b.get i j) : a = b := by
  cases a with | mk a => cases b with | mk b =>
  congr
  apply Vector.ext
  intro k hk
  have hk' : k / w * w + k % w = k := by rw [Nat.mul_comm]; exact Nat.div_add_mod k w
  have := hab ⟨k % w, column_lt hk⟩ ⟨k / w, row_lt hk⟩
  simpa [get, hk'] using this

/-- The grid with the same value in every cell. -/
def constant (w h : Nat) (b : β) : Grid w h β := ⟨Vector.replicate (h * w) b⟩

@[simp] theorem get_constant (b : β) (i : Fin w) (j : Fin h) : (constant w h b).get i j = b := by
  simp [get, constant]

/-- The values row after row. -/
def toArray (g : Grid w h β) : Array β := g.cells.toArray

@[simp] theorem size_toArray (g : Grid w h β) : g.toArray.size = h * w := g.cells.size_toArray

/-- The grid with the given values row after row, if there are as many as cells. -/
def ofArray? (w h : Nat) (values : Array β) : Option (Grid w h β) :=
  if size_eq : values.size = h * w then some ⟨⟨values, size_eq⟩⟩ else none

/-- The grid with the first of the given values row after row, if there are enough. -/
def ofPrefix? (w h : Nat) (values : Array β) : Option (Grid w h β) :=
  ofArray? w h (values.take (h * w))

/-- The values of one row. -/
def row (g : Grid w h β) (j : Fin h) : Vector β w := Vector.ofFn fun i => g.get i j

/-- The grid with the given rows. -/
def ofRows (rows : Vector (Vector β w) h) : Grid w h β := ofFn fun i j => rows[j][i]

@[simp] theorem get_ofRows (rows : Vector (Vector β w) h) (i : Fin w) (j : Fin h) :
    (ofRows rows).get i j = rows[j][i] := by
  simp [ofRows]

/-- The grid with every row replaced by its image. -/
def mapRows (f : Vector β w → Vector γ n) (g : Grid w h β) : Grid n h γ :=
  ofRows (Vector.ofFn fun j => f (g.row j))

@[simp] theorem get_mapRows (f : Vector β w → Vector γ n) (g : Grid w h β) (i : Fin n)
    (j : Fin h) : (g.mapRows f).get i j = (f (g.row j))[i] := by
  simp [mapRows]

/-- The grid with every value replaced by its image. -/
def map (f : β → γ) (g : Grid w h β) : Grid w h γ := ⟨g.cells.map f⟩

@[simp] theorem get_map (f : β → γ) (g : Grid w h β) (i : Fin w) (j : Fin h) :
    (g.map f).get i j = f (g.get i j) := by
  simp [get, map]

/-- The grid of the combined values of two grids. -/
def zipWith {δ : Type} (f : β → γ → δ) (a : Grid w h β) (b : Grid w h γ) : Grid w h δ :=
  ⟨Vector.zipWith f a.cells b.cells⟩

@[simp] theorem get_zipWith {δ : Type} (f : β → γ → δ) (a : Grid w h β) (b : Grid w h γ)
    (i : Fin w) (j : Fin h) : (zipWith f a b).get i j = f (a.get i j) (b.get i j) := by
  simp [get, zipWith]

/-- The grid with the value in one cell replaced by its image. -/
def modify (g : Grid w h β) (i : Fin w) (j : Fin h) (f : β → β) : Grid w h β :=
  ⟨⟨g.cells.toArray.modify (j.val * w + i.val) f, by simp⟩⟩

theorem index_inj {i i' : Fin w} {j j' : Fin h}
    (heq : j.val * w + i.val = j'.val * w + i'.val) : i = i' ∧ j = j' := by
  have hw : 0 < w := Nat.lt_of_le_of_lt (Nat.zero_le _) i.isLt
  have hmod := congrArg (· % w) heq
  have hdiv := congrArg (· / w) heq
  simp only [Nat.mul_comm _ w, Nat.mul_add_mod, Nat.mod_eq_of_lt i.isLt,
    Nat.mod_eq_of_lt i'.isLt] at hmod
  simp only [Nat.mul_comm _ w, Nat.mul_add_div hw, Nat.div_eq_of_lt i.isLt,
    Nat.div_eq_of_lt i'.isLt, Nat.add_zero] at hdiv
  exact ⟨Fin.ext hmod, Fin.ext hdiv⟩

theorem get_modify (g : Grid w h β) (i i' : Fin w) (j j' : Fin h) (f : β → β) :
    (g.modify i j f).get i' j' = if i = i' ∧ j = j' then f (g.get i j) else g.get i' j' := by
  by_cases heq : j.val * w + i.val = j'.val * w + i'.val
  · obtain ⟨rfl, rfl⟩ := index_inj heq
    simp [get, modify, Array.getElem_modify]
  · have hne : ¬(i = i' ∧ j = j') := by
      rintro ⟨rfl, rfl⟩
      exact heq rfl
    rw [if_neg hne]
    simp [get, modify, Array.getElem_modify, heq]

/-- The grid with the value at a place, counted row after row, replaced. -/
def setAt (g : Grid w h β) (k : Nat) (b : β) : Grid w h β := ⟨g.cells.setIfInBounds k b⟩

theorem get_setAt (g : Grid w h β) (k : Nat) (b : β) (i : Fin w) (j : Fin h) :
    (g.setAt k b).get i j = if k = j.val * w + i.val then b else g.get i j := by
  simp [get, setAt, Vector.getElem_setIfInBounds]

/-- The square with the values of the cells `(i, j)` and `(j, i)` exchanged. -/
def exchange (g : Grid n n β) (i j : Fin n) : Grid n n β :=
  ⟨g.cells.swap (j.val * n + i.val) (i.val * n + j.val) (index_lt i j) (index_lt j i)⟩

/-- The square with the cells of row `j` beyond the diagonal exchanged with their mirror images, one
after the other. -/
def exchangeRow (g : Grid n n β) (j : Fin n) : Grid n n β :=
  Nat.fold (n - (j.val + 1)) (fun k hk g => g.exchange ⟨j.val + 1 + k, by omega⟩ j) g

/-- The square with columns and rows exchanged in place, row after row. -/
def transposeInPlace (g : Grid n n β) : Grid n n β :=
  Nat.fold n (fun j hj g => g.exchangeRow ⟨j, hj⟩) g

/-- Columns and rows exchanged. -/
def transpose (g : Grid w h β) : Grid h w β := ofFn fun i j => g.get j i

@[simp] theorem get_transpose (g : Grid w h β) (i : Fin h) (j : Fin w) :
    g.transpose.get i j = g.get j i := by
  simp [transpose]

end Grid

end Seeing
