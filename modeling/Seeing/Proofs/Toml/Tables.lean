import Mathlib.Data.List.Nodup
import Seeing.Toml.Reader

/-!
# Assignments and tables

A document that assigns values to distinct keys, then opens tables of other names one after the
other and assigns values to distinct keys of each, holds these values in their order:
`foldlM_document`.
-/

namespace Seeing.Toml

/-- The assignments of some entries. -/
def assignments (entries : Entries) : List Statement :=
  entries.map fun entry => .assign [] entry.1 entry.2

variable {entries child : Entries} {key name : String}

theorem lookup_eq_none {β : Type} {entries : List (String × β)}
    (hkey : key ∉ entries.map Prod.fst) : entries.lookup key = none := by
  rw [List.lookup_eq_none_iff]
  rintro entry hmem
  rw [bne_iff_ne]
  rintro rfl
  exact hkey (List.mem_map_of_mem hmem)

theorem lookup_append_singleton (hkey : key ∉ entries.map Prod.fst) (value : Value) :
    (entries ++ [(key, value)]).lookup key = some value := by
  rw [List.lookup_append, lookup_eq_none hkey, Option.none_or, List.lookup_cons_self]

theorem put_append_singleton (hkey : key ∉ entries.map Prod.fst) (old value : Value) :
    Entries.put (entries ++ [(key, old)]) key value = entries ++ [(key, value)] := by
  rw [Entries.put, lookup_append_singleton hkey, Option.isSome_some, if_pos rfl, List.map_append]
  congr 1
  · -- the other keys keep their values
    refine (List.map_congr_left fun entry hmem => ?_).trans (List.map_id entries)
    refine if_neg ?_
    rintro rfl
    exact hkey (List.mem_map_of_mem hmem)
  · exact congrArg (fun entry => [entry]) (if_pos rfl)

theorem assign?_nil (hkey : key ∉ entries.map Prod.fst) (value : Value) :
    Entries.assign? [] key value (.header, entries) =
      some (.header, entries ++ [(key, value)]) := by
  rw [Entries.assign?, Entries.updateAt?]
  simp only [lookup_eq_none hkey]
  rfl

theorem apply?_assign (hkey : key ∉ entries.map Prod.fst) (value : Value) :
    Draft.apply? ⟨entries, []⟩ (.assign [] key value) =
      some ⟨entries ++ [(key, value)], []⟩ := by
  unfold Draft.apply?
  simp only [Entries.updateAt?, assign?_nil hkey]
  rfl

theorem apply?_table (hkey : key ∉ entries.map Prod.fst) (path : List String) :
    Draft.apply? ⟨entries, path⟩ (.table [] key) =
      some ⟨entries ++ [(key, .table .header [])], [key]⟩ := by
  unfold Draft.apply?
  simp only [Entries.open?, Entries.updateAt?, lookup_eq_none hkey]
  rfl

/-- An assignment after a header is one to a key of its table. -/
theorem apply?_assign_table (hname : name ∉ entries.map Prod.fst)
    (hkey : key ∉ child.map Prod.fst) (value : Value) :
    Draft.apply? ⟨entries ++ [(name, .table .header child)], [name]⟩ (.assign [] key value) =
      some ⟨entries ++ [(name, .table .header (child ++ [(key, value)]))], [name]⟩ := by
  unfold Draft.apply?
  simp only [lookup_append_singleton hname, Entries.updateAt?, assign?_nil hkey,
    put_append_singleton hname]
  rfl

theorem not_mem_of_nodup_append {entry : String × Value} {more : Entries}
    (hnodup : ((entries ++ entry :: more).map Prod.fst).Nodup) :
    entry.1 ∉ entries.map Prod.fst := by
  rw [List.map_append, List.map_cons, List.nodup_middle] at hnodup
  exact fun hmem => (List.nodup_cons.1 hnodup).1 (List.mem_append_left _ hmem)

theorem foldlM_assignments {more : Entries} (hnodup : ((entries ++ more).map Prod.fst).Nodup) :
    (assignments more).foldlM Draft.apply? ⟨entries, []⟩ = some ⟨entries ++ more, []⟩ := by
  induction more generalizing entries with
  | nil =>
      rw [List.append_nil]
      rfl
  | cons entry more ih =>
      have hstep := apply?_assign (not_mem_of_nodup_append hnodup) entry.2
      rw [List.append_cons entries] at hnodup ⊢
      rw [← ih hnodup, assignments, List.map_cons, List.foldlM_cons, hstep]
      rfl

theorem foldlM_assignments_table (hname : name ∉ entries.map Prod.fst) {more : Entries}
    (hnodup : ((child ++ more).map Prod.fst).Nodup) :
    (assignments more).foldlM Draft.apply? ⟨entries ++ [(name, .table .header child)], [name]⟩ =
      some ⟨entries ++ [(name, .table .header (child ++ more))], [name]⟩ := by
  induction more generalizing child with
  | nil =>
      rw [List.append_nil]
      rfl
  | cons entry more ih =>
      have hstep := apply?_assign_table hname (not_mem_of_nodup_append hnodup) entry.2
      rw [List.append_cons child] at hnodup ⊢
      rw [← ih hnodup, assignments, List.map_cons, List.foldlM_cons, hstep]
      rfl

/-- The statements of some tables with a header each. -/
def headed (tables : List (String × Entries)) : List Statement :=
  tables.flatMap fun table => .table [] table.1 :: assignments table.2

/-- The entries before the headers of tables stay, and those after each header are its table. -/
theorem foldlM_headed {tables : List (String × Entries)}
    (hnodup : (entries.map Prod.fst ++ tables.map Prod.fst).Nodup)
    (hchildren : ∀ table ∈ tables, (table.2.map Prod.fst).Nodup) (path : List String) :
    ∃ last, (headed tables).foldlM Draft.apply? ⟨entries, path⟩ =
      some ⟨entries ++ tables.map fun table => (table.1, .table .header table.2), last⟩ := by
  induction tables generalizing entries path with
  | nil => exact ⟨path, by rw [List.map_nil, List.append_nil]; rfl⟩
  | cons table tables ih =>
      obtain ⟨name, child⟩ := table
      rw [List.forall_mem_cons] at hchildren
      have hname : name ∉ entries.map Prod.fst := fun hmem =>
        (List.nodup_append.1 hnodup).2.2 name hmem name List.mem_cons_self rfl
      have hnext : ((entries ++ [(name, Value.table .header child)]).map Prod.fst ++
          tables.map Prod.fst).Nodup := by
        rw [List.map_append, List.append_assoc]
        exact hnodup
      obtain ⟨last, hlast⟩ := ih hnext hchildren.2 [name]
      have hchild : (assignments child).foldlM Draft.apply?
          ⟨entries ++ [(name, .table .header [])], [name]⟩ =
          some ⟨entries ++ [(name, .table .header child)], [name]⟩ :=
        foldlM_assignments_table hname hchildren.1
      rw [List.append_assoc] at hlast
      refine ⟨last, ?_⟩
      rw [headed, List.flatMap_cons, List.cons_append, List.foldlM_cons, apply?_table hname,
        Option.bind_eq_bind, Option.bind_some, List.foldlM_append, hchild]
      exact hlast

/-- A document of assignments and then of tables holds the values in their order. -/
theorem foldlM_document {tables : List (String × Entries)}
    (hnodup : (entries.map Prod.fst ++ tables.map Prod.fst).Nodup)
    (hchildren : ∀ table ∈ tables, (table.2.map Prod.fst).Nodup) :
    ∃ last, (assignments entries ++ headed tables).foldlM Draft.apply? ⟨[], []⟩ =
      some ⟨entries ++ tables.map fun table => (table.1, .table .header table.2), last⟩ := by
  have htop : (assignments entries).foldlM Draft.apply? ⟨[], []⟩ = some ⟨entries, []⟩ :=
    foldlM_assignments (List.nodup_append.1 hnodup).1
  rw [List.foldlM_append, htop, Option.bind_eq_bind, Option.bind_some]
  exact foldlM_headed hnodup hchildren []

end Seeing.Toml
