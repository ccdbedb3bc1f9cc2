import Seeing.Disk

/-!
# A file that was written is found

A path can be written if its last step leads from a directory to a file or to nothing. This does not
depend on what is written, so `Volume.Writable` need not say it. The path then names what was
written: `Volume.Writable.write_eq_ok`, `Volume.Writable.find_put`.
-/

namespace Seeing

namespace Volume

/-- Some file can be written at the path. -/
def Writable (v : Volume) (path : String) : Prop :=
  ∃ content v', v.write path content = .ok v'

theorem lookup_filter_ne {β : Type} {key other : List String} (hne : key ≠ other)
    (entries : List (List String × β)) :
    (entries.filter (·.1 != other)).lookup key = entries.lookup key := by
  induction entries with
  | nil => rfl
  | cons entry entries ih =>
      by_cases hother : entry.1 = other
      · have hkey : (key == entry.1) = false := by simpa [hother] using hne
        rw [List.filter_cons_of_neg (by simpa using hother), List.lookup_cons, hkey, ih]
      · rw [List.filter_cons_of_pos (by simpa using hother), List.lookup_cons, List.lookup_cons, ih]

theorem node?_put (v : Volume) {steps : List String} (node : DiskNode) (hsteps : steps ≠ []) :
    (v.put steps node).node? steps = some node := by
  rw [node?, if_neg (by simpa using hsteps), put, List.lookup_cons_self]

theorem node?_put_of_ne (v : Volume) {steps steps' : List String} (node : DiskNode)
    (hne : steps' ≠ steps) : (v.put steps node).node? steps' = v.node? steps' := by
  have hkey : (steps' == steps) = false := by simpa using hne
  rw [node?, node?, put, List.lookup_cons, hkey, lookup_filter_ne hne]

/-- The last step is taken from where those before it lead. -/
theorem walk_append (v : Volume) (before rest : List String) (last : String) :
    v.walk before (rest ++ [last]) =
      match v.walk before rest with
      | .ok .directory => v.walk (before ++ rest ++ [last]) []
      | .ok (.file _) => .error .notDirectory
      | .error e => .error e := by
  induction rest generalizing before with
  | nil => rcases hnode : v.node? before with _ | _ | content <;> simp [walk, hnode]
  | cons step rest ih =>
      rcases hnode : v.node? before with _ | _ | content
      · simp [walk, hnode]
      · simp only [List.cons_append, walk, hnode, ih]
        simp only [List.append_assoc, List.singleton_append]
      · simp [walk, hnode]

/-- What is put at the end of some steps does not matter to walks that take fewer. -/
theorem walk_put (v : Volume) {steps : List String} (node : DiskNode) {before rest : List String}
    (hlength : (before ++ rest).length < steps.length) :
    (v.put steps node).walk before rest = v.walk before rest := by
  induction rest generalizing before with
  | nil =>
      rw [List.append_nil] at hlength
      have hne : before ≠ steps := fun heq => Nat.ne_of_lt hlength (congrArg List.length heq)
      rw [walk, walk, node?_put_of_ne v node hne]
  | cons step rest ih =>
      have hshorter : before.length < steps.length :=
        Nat.lt_of_le_of_lt (List.length_append ▸ Nat.le_add_right _ _) hlength
      have hne : before ≠ steps := fun heq => Nat.ne_of_lt hshorter (congrArg List.length heq)
      rw [walk, walk, node?_put_of_ne v node hne, ih (by rwa [List.append_assoc])]

variable {v : Volume} {path : String}

/-- A path that can be written names a file, or nothing yet in a directory. -/
theorem Writable.find (hpath : v.Writable path) :
    (∃ content, v.find path = .ok (.file content)) ∨
      path.isEmpty = false ∧ v.find path = .error .missing ∧
        v.walk [] (Path.resolve path).dropLast = .ok .directory := by
  obtain ⟨content, v', hwrite⟩ := hpath
  rw [write] at hwrite
  rcases hfind : v.find path with cause | _ | old
  · right
    rw [hfind] at hwrite
    cases cause with
    | missing =>
        rcases hwalk : v.walk [] (Path.resolve path).dropLast with _ | _ | _ <;>
          simp only [hwalk, reduceCtorEq] at hwrite
        cases hempty : path.isEmpty with
        | true => simp [hempty] at hwrite
        | false => exact ⟨rfl, rfl, rfl⟩
    | _ => cases hwrite
  · rw [hfind] at hwrite
    cases hwrite
  · exact .inl ⟨old, rfl⟩

theorem Writable.write_eq_ok (hpath : v.Writable path) (content : Document) :
    v.write path content = .ok (v.put (Path.resolve path) (.file content)) := by
  rcases hpath.find with ⟨old, hfind⟩ | ⟨hempty, hfind, hwalk⟩
  · simp only [write, hfind]
  · simp [write, hfind, hwalk, hempty]

/-- A file can be written where nothing is yet, in a directory. -/
theorem write_of_missing {steps : List String} (hresolve : Path.resolve path = steps)
    (hempty : path.isEmpty = false) (hmissing : v.walk [] steps = .error .missing)
    (hdirectory : v.walk [] steps.dropLast = .ok .directory) (content : Document) :
    v.write path content = .ok (v.put steps (.file content)) := by
  have hfind : v.find path = .error .missing := by
    rw [Volume.find, hempty, if_neg Bool.false_ne_true, hresolve, hmissing]
  simp [write, hfind, hresolve, hdirectory, hempty]

/-- The steps of a path that can be written are not none, and all but the last lead to a
directory. -/
theorem Writable.resolve (hpath : v.Writable path) :
    path.isEmpty = false ∧ ∃ before last, Path.resolve path = before ++ [last] ∧
      v.walk [] before = .ok .directory := by
  have hempty : path.isEmpty = false := by
    rcases hpath.find with ⟨old, hfind⟩ | ⟨hempty, -⟩
    · cases hempty : path.isEmpty with
      | true => simp [Volume.find, hempty] at hfind
      | false => rfl
    · exact hempty
  refine ⟨hempty, ?_⟩
  have hfind_eq : v.find path = v.walk [] (Path.resolve path) := by
    rw [Volume.find, hempty, if_neg Bool.false_ne_true]
  rcases List.eq_nil_or_concat (Path.resolve path) with hnil | ⟨before, last, hsteps⟩
  · -- no step leads to a directory, which cannot be written
    rw [hnil] at hfind_eq
    rcases hpath.find with ⟨old, hfind⟩ | ⟨-, hfind, -⟩ <;>
      cases hfind_eq.symm.trans hfind
  · rw [List.concat_eq_append] at hsteps
    refine ⟨before, last, hsteps, ?_⟩
    rcases hpath.find with ⟨old, hfind⟩ | ⟨-, -, hwalk⟩
    · rw [hfind_eq, hsteps, walk_append] at hfind
      rcases hwalk : v.walk [] before with _ | _ | _ <;> simp [hwalk] at hfind ⊢
    · rwa [hsteps, List.dropLast_concat] at hwalk

/-- What was written is found. -/
theorem Writable.find_put (hpath : v.Writable path) (content : Document) :
    (v.put (Path.resolve path) (.file content)).find path = .ok (.file content) := by
  obtain ⟨hempty, before, last, hsteps, hwalk⟩ := hpath.resolve
  rw [Volume.find, hempty, if_neg Bool.false_ne_true, hsteps, walk_append,
    walk_put v _ (by simp), hwalk]
  simp only [List.nil_append, walk, node?_put v _ (List.append_ne_nil_of_right_ne_nil before
    (List.cons_ne_nil last []))]

end Volume

end Seeing
