import Seeing.Proofs.Toml.Lines
import Seeing.Proofs.Toml.Tables
import Seeing.Toml.Library

/-!
# What a TOML library is known to do

`Library.Lawful` collects what is known of a library. There is a document for a record just if it
can hold the counts. A document that was written is read again, its fields in whatever order, as
long as each of its machine numbers is read again from a document of its own. A comment before a
document changes nothing, and zeros keep their signs.

`lawful_standardLibrary` is that the standard library does all this: the lines of a document give
its statements, and the statements give its fields.
-/

namespace Seeing.Toml

section Records

variable {β γ : Type}

/-- The names of fields are distinct and need no quotes. -/
structure Named (fields : List (String × β)) : Prop where
  nodup : (fields.map Prod.fst).Nodup
  isBareKey : ∀ field ∈ fields, IsBareKey field.1

/-- So are those of the fields of the records in them. -/
structure Fields.WellNamed (fields : Fields) : Prop where
  named : Named fields
  named_record : ∀ field ∈ fields, ∀ entries, field.2.record? = some entries → Named entries

/-- The machine numbers that a field holds. -/
def Datum.numbers : Datum → List Float
  | .float x => [x]
  | .count _ => []
  | .floats xs => xs

/-- What a field holds as a value. -/
def Datum.value : Datum → Value
  | .float x => .float x
  | .count n => .integer n
  | .floats xs => .array (xs.map .float)

/-- A value is what a field holds. The fields of a record may be in another order. -/
def Field.Agrees : Field → Value → Prop
  | .datum d, value => value = d.value
  | .record fields, value => ∃ origin entries, value = .table origin entries ∧
      ∀ key, entries.lookup key = (fields.lookup key).map Datum.value

/-- The entries of a document are the fields of a record, in whatever order. -/
def Fields.Agrees (fields : Fields) (entries : Entries) : Prop :=
  ∀ key, Option.Rel Field.Agrees (fields.lookup key) (entries.lookup key)

section Agrees

variable {fields : Fields} {entries : Entries} {key : String}

theorem Fields.Agrees.lookup_datum (hagrees : fields.Agrees entries) {d : Datum}
    (hkey : fields.lookup key = some (.datum d)) : entries.lookup key = some d.value := by
  have hrel := hagrees key
  rw [hkey] at hrel
  cases hvalue : entries.lookup key with
  | none =>
      rw [hvalue] at hrel
      cases hrel
  | some value =>
      rw [hvalue] at hrel
      cases hrel with
      | some hfield => exact congrArg some hfield

theorem Fields.Agrees.lookup_record (hagrees : fields.Agrees entries)
    {child : List (String × Datum)} (hkey : fields.lookup key = some (.record child)) :
    ∃ origin table, entries.lookup key = some (.table origin table) ∧
      ∀ key, table.lookup key = (child.lookup key).map Datum.value := by
  have hrel := hagrees key
  rw [hkey] at hrel
  cases hvalue : entries.lookup key with
  | none =>
      rw [hvalue] at hrel
      cases hrel
  | some value =>
      rw [hvalue] at hrel
      cases hrel with
      | some hfield =>
          obtain ⟨origin, table, rfl, hlookup⟩ := hfield
          exact ⟨origin, table, rfl, hlookup⟩

end Agrees

end Records

section Laws

variable [Library]

/-- The document of one machine number is read as that of another. -/
def Rereads (x y : Float) : Prop :=
  ∃ text entries, Library.write? [("x", .datum (.float x))] = some text ∧
    Library.read? text = some entries ∧ entries.lookup "x" = some (.float y)

/-- The document of a machine number is read as that of an equal one. -/
def ReadsBack (x : Float) : Prop := ∃ y, Rereads x y ∧ (y == x) = true

/-- What is known of a library. -/
structure Library.Lawful : Prop where
  /-- Counts of 64 bits without a sign are too large for a document, and nothing else is. -/
  exists_text_iff : ∀ {fields : Fields}, fields.WellNamed →
    ((∃ text, Library.write? fields = some text) ↔ fields.Fits)
  /-- A document is read as it was written, but for the order of its fields. -/
  exists_agrees : ∀ {fields : Fields} {text : String}, fields.WellNamed →
    Library.write? fields = some text →
    (∀ field ∈ fields, ∀ d ∈ field.2.data, ∀ x ∈ d.numbers, Rereads x x) →
    ∃ entries, Library.read? text = some entries ∧ fields.Agrees entries
  /-- A comment on a line of its own and an empty line are passed over. -/
  read?_comment : ∀ {fields : Fields} {text comment : String} {entries : Entries},
    fields.WellNamed → Library.write? fields = some text →
    comment.toList.all isPrintable = true → Library.read? text = some entries →
    Library.read? ("#" ++ comment ++ "\n\n" ++ text) = some entries
  /-- The sign of a zero is written and read. -/
  rereads_zero : ∀ {x : Float}, (x == 0) = true → Rereads x x

/-- A number that is read as an equal one is read as itself. -/
theorem ReadsBack.rereads (hlawful : Library.Lawful) {x : Float} (hx : ReadsBack x) :
    Rereads x x := by
  obtain ⟨y, hread, heq⟩ := hx
  rcases Machine.eq_or_isZero_of_beq heq with rfl | ⟨-, hzero⟩
  · exact hread
  · apply hlawful.rereads_zero
    rcases Machine.eq_zero_of_isZero hzero with rfl | rfl <;> decide +kernel

end Laws

section Standard

/-- The values of some fields. -/
def values (fields : List (String × Datum)) : Entries :=
  fields.map fun field => (field.1, field.2.value)

/-- The entries of the document of a record. -/
def Fields.entries (fields : Fields) : Entries :=
  values fields.data ++
    (fields.records.map fun table => (table.1, values table.2)).map fun table =>
      (table.1, .table .header table.2)

section Lookup

variable {β γ : Type}

theorem lookup_map_snd (f : β → γ) (fields : List (String × β)) (key : String) :
    (fields.map fun field => (field.1, f field.2)).lookup key = (fields.lookup key).map f := by
  induction fields with
  | nil => rfl
  | cons field fields ih =>
      rw [List.map_cons, List.lookup_cons, List.lookup_cons, ih]
      cases key == field.1 <;> rfl

variable {f : β → Option γ} {fields : List (String × β)}

theorem keys_filterMap_sublist (f : β → Option γ) (fields : List (String × β)) :
    ((fields.filterMap fun field => (f field.2).map (field.1, ·)).map Prod.fst).Sublist
      (fields.map Prod.fst) := by
  induction fields with
  | nil => exact .slnil
  | cons field fields ih =>
      rw [List.filterMap_cons, List.map_cons]
      cases f field.2 with
      | none => exact ih.cons _
      | some c => exact ih.cons_cons _

/-- Among fields of distinct names, the one of a key is kept or not, and there is no other. -/
theorem lookup_filterMap (hnodup : (fields.map Prod.fst).Nodup) (key : String) :
    (fields.filterMap fun field => (f field.2).map (field.1, ·)).lookup key =
      (fields.lookup key).bind f := by
  induction fields with
  | nil => rfl
  | cons field fields ih =>
      rw [List.map_cons, List.nodup_cons] at hnodup
      rw [List.filterMap_cons, List.lookup_cons]
      cases hkey : key == field.1 with
      | true =>
          obtain rfl := eq_of_beq hkey
          have hnone := lookup_eq_none
            fun hmem => hnodup.1 ((keys_filterMap_sublist f fields).subset hmem)
          cases hfield : f field.2 with
          | none => simpa [hfield] using hnone
          | some c => simp [hfield]
      | false =>
          cases f field.2 with
          | none => exact ih hnodup.2
          | some c =>
              simp only [Option.map_some, List.lookup_cons, hkey]
              exact ih hnodup.2

theorem exists_lookup_of_mem {fields : List (String × β)} {key : String}
    (hkey : key ∈ fields.map Prod.fst) : ∃ b, fields.lookup key = some b := by
  obtain ⟨field, hfield, rfl⟩ := List.mem_map.1 hkey
  rw [← Option.isSome_iff_exists, Option.isSome_iff_ne_none, ne_eq, List.lookup_eq_none_iff]
  intro hne
  simpa using hne field hfield

end Lookup

section Entries

theorem mem_of_mem_data {fields : Fields} {field : String × Datum} (hfield : field ∈ fields.data) :
    (field.1, .datum field.2) ∈ fields := by
  obtain ⟨⟨key, f⟩, hmem, hdatum⟩ := List.mem_filterMap.1 hfield
  cases f with
  | datum d =>
      obtain rfl := Option.some.inj hdatum
      exact hmem
  | record child => cases hdatum

theorem mem_of_mem_records {fields : Fields} {table : String × List (String × Datum)}
    (htable : table ∈ fields.records) : (table.1, .record table.2) ∈ fields := by
  obtain ⟨⟨key, f⟩, hmem, hrecord⟩ := List.mem_filterMap.1 htable
  cases f with
  | datum d => cases hrecord
  | record child =>
      obtain rfl := Option.some.inj hrecord
      exact hmem

variable {fields : Fields} (hnamed : fields.WellNamed)

include hnamed

theorem agrees_entries : fields.Agrees fields.entries := by
  intro key
  rw [Fields.entries, List.lookup_append, values, lookup_map_snd, lookup_map_snd, lookup_map_snd,
    Fields.data, Fields.records, lookup_filterMap hnamed.named.nodup,
    lookup_filterMap hnamed.named.nodup]
  cases fields.lookup key with
  | none => exact .none
  | some field =>
      cases field with
      | datum d => exact .some rfl
      | record child => exact .some ⟨_, _, rfl, lookup_map_snd _ _⟩

theorem nodup_keys : ((values fields.data).map Prod.fst ++
    (fields.records.map fun table => (table.1, values table.2)).map Prod.fst).Nodup := by
  have hdata : (values fields.data).map Prod.fst = fields.data.map Prod.fst := by
    rw [values, List.map_map]
    rfl
  have hrecords : (fields.records.map fun table => (table.1, values table.2)).map Prod.fst =
      fields.records.map Prod.fst := by
    rw [List.map_map]
    rfl
  rw [hdata, hrecords, List.nodup_append]
  refine ⟨hnamed.named.nodup.sublist (keys_filterMap_sublist _ _),
    hnamed.named.nodup.sublist (keys_filterMap_sublist _ _), ?_⟩
  -- a field cannot be a record and none
  rintro key hdatum _ hrecord rfl
  obtain ⟨d, hd⟩ := exists_lookup_of_mem hdatum
  obtain ⟨child, hchild⟩ := exists_lookup_of_mem hrecord
  rw [Fields.data, lookup_filterMap hnamed.named.nodup] at hd
  rw [Fields.records, lookup_filterMap hnamed.named.nodup] at hchild
  cases hfield : fields.lookup key with
  | none =>
      rw [hfield] at hd
      cases hd
  | some field =>
      rw [hfield] at hd hchild
      cases field with
      | datum _ => cases hchild
      | record _ => cases hd

theorem nodup_keys_record : ∀ table ∈ fields.records.map fun table => (table.1, values table.2),
    (table.2.map Prod.fst).Nodup := by
  intro table htable
  obtain ⟨⟨name, child⟩, hchild, rfl⟩ := List.mem_map.1 htable
  rw [values, List.map_map]
  exact (hnamed.named_record _ (mem_of_mem_records hchild) child rfl).nodup

/-- The lines of a document, with its statements. -/
theorem foldlM_statements : ∃ last,
    (assignments (values fields.data) ++
      headed (fields.records.map fun table => (table.1, values table.2))).foldlM Draft.apply?
        ⟨[], []⟩ = some ⟨fields.entries, last⟩ :=
  foldlM_document (nodup_keys hnamed) (nodup_keys_record hnamed)

end Entries

section Lines

/-- The line of a field that is no record, with its statement. -/
def datumLine (field : String × Datum) : List Char × Option Statement :=
  assignment field.1 field.2.text field.2.value

/-- The lines of a field that is a record, with their statements. -/
def recordLines (table : String × List (String × Datum)) :
    List (List Char × Option Statement) :=
  (['\n'], none) :: ('[' :: table.1.toList ++ [']', '\n'], some (.table [] table.1)) ::
    table.2.map datumLine

/-- The lines of the document of a record, with their statements. -/
def Fields.lines (fields : Fields) : List (List Char × Option Statement) :=
  fields.data.map datumLine ++ fields.records.flatMap recordLines

theorem flatMap_datumLine (fields : List (String × Datum)) :
    (fields.map datumLine).flatMap Prod.fst = Toml.lines fields := by
  rw [List.flatMap_map]
  rfl

theorem flatMap_recordLines (table : String × List (String × Datum)) :
    (recordLines table).flatMap Prod.fst = tableLines table.1 table.2 := by
  rw [recordLines, List.flatMap_cons, List.flatMap_cons, flatMap_datumLine, tableLines]
  simp

theorem flatMap_lines (fields : Fields) : fields.lines.flatMap Prod.fst = fields.text := by
  rw [Fields.lines, List.flatMap_append, flatMap_datumLine, List.flatMap_assoc]
  simp only [flatMap_recordLines]
  rfl

theorem filterMap_datumLine (fields : List (String × Datum)) :
    (fields.map datumLine).filterMap Prod.snd = assignments (values fields) := by
  rw [List.filterMap_map, assignments, values, List.map_map]
  exact congrFun List.filterMap_eq_map' fields

theorem filterMap_lines (fields : Fields) : fields.lines.filterMap Prod.snd =
    assignments (values fields.data) ++
      headed (fields.records.map fun table => (table.1, values table.2)) := by
  rw [Fields.lines, List.filterMap_append, filterMap_datumLine, headed, List.flatMap_map,
    List.filterMap_flatMap]
  simp only [recordLines, List.filterMap_cons, filterMap_datumLine]

theorem reads_datumLine {field : String × Datum} (hkey : IsBareKey field.1)
    (hfits : field.2.Fits) (hnumbers : ∀ x ∈ field.2.numbers, Scans x x) :
    Reads (datumLine field).1 (datumLine field).2 := by
  obtain ⟨key, d⟩ := field
  cases d with
  | float x => exact reads_line_float hkey (hnumbers x List.mem_cons_self)
  | count n => exact reads_line_integer hkey hfits
  | floats xs => exact reads_line_floats hkey hnumbers

variable {fields : Fields} (hnamed : fields.WellNamed)

include hnamed

/-- There is no mark of the byte order before a document. -/
theorem head?_text_ne : fields.text.head? ≠ some '\uFEFF' := by
  rw [Fields.text]
  cases hdata : fields.data with
  | nil =>
      cases fields.records with
      | nil => exact nofun
      | cons table tables => exact (by decide : some '\n' ≠ some '\uFEFF')
  | cons field others =>
      have hmem : field ∈ fields.data := hdata ▸ List.mem_cons_self
      obtain ⟨c, more, hcons, hc⟩ := (hnamed.named.isBareKey _ (mem_of_mem_data hmem)).exists_cons
      rw [Toml.lines, List.flatMap_cons, line, hcons]
      exact fun heq => ne_of_kind hc rfl (Option.some.inj heq)

theorem reads_lines (hfits : fields.Fits)
    (hnumbers : ∀ field ∈ fields, ∀ d ∈ field.2.data, ∀ x ∈ d.numbers, Scans x x) :
    ∀ l ∈ fields.lines, Reads l.1 l.2 := by
  rw [Fields.lines, List.forall_mem_append]
  constructor
  · intro l hl
    obtain ⟨field, hfield, rfl⟩ := List.mem_map.1 hl
    have hmem := mem_of_mem_data hfield
    exact reads_datumLine (hnamed.named.isBareKey _ hmem) (hfits _ hmem _ List.mem_cons_self)
      (hnumbers _ hmem _ List.mem_cons_self)
  · intro l hl
    obtain ⟨⟨name, child⟩, hchild, hl⟩ := List.mem_flatMap.1 hl
    have hmem := mem_of_mem_records hchild
    have hchildNamed := hnamed.named_record _ hmem child rfl
    rcases List.mem_cons.1 hl with rfl | hl
    · exact reads_blank
    rcases List.mem_cons.1 hl with rfl | hl
    · exact reads_header (hnamed.named.isBareKey _ hmem)
    obtain ⟨field, hfield, rfl⟩ := List.mem_map.1 hl
    have hdatum : field.2 ∈ (Field.record child).data := List.mem_map_of_mem hfield
    exact reads_datumLine (hchildNamed.isBareKey _ hfield) (hfits _ hmem _ hdatum)
      (hnumbers _ hmem _ hdatum)

theorem read?_text (hfits : fields.Fits)
    (hnumbers : ∀ field ∈ fields, ∀ d ∈ field.2.data, ∀ x ∈ d.numbers, Scans x x) :
    read? fields.text = some fields.entries := by
  obtain ⟨last, hfold⟩ := foldlM_statements hnamed
  have hmark := head?_text_ne hnamed
  rw [← flatMap_lines] at hmark ⊢
  rw [read?_flatMap (reads_lines hnamed hfits hnumbers) hmark, filterMap_lines, hfold]
  rfl

end Lines

section Alone

/-- A number alone. -/
def alone (x : Float) : Fields := [("x", .datum (.float x))]

theorem wellNamed_alone (x : Float) : (alone x).WellNamed where
  named := ⟨List.nodup_singleton _, List.forall_mem_singleton.2 (by decide : IsBareKey "x")⟩
  named_record := List.forall_mem_singleton.2 nofun

theorem write?_eq_ite (fields : Fields) :
    Library.write? fields = if fields.Fits then some (.ofList fields.text) else none :=
  rfl

theorem write?_alone (x : Float) :
    Library.write? (alone x) = some (.ofList (alone x).text) :=
  if_pos (List.forall_mem_singleton.2 (List.forall_mem_singleton.2 trivial))

theorem read?_ofList (text : List Char) : Library.read? (.ofList text) = read? text :=
  congrArg read? String.toList_ofList

variable {x y : Float}

theorem rereads_of_scans (hread : Scans x y) : Rereads x y := by
  have htext : (alone x).text = [assignment "x" (floatText x) (.float y)].flatMap Prod.fst :=
    List.append_nil _
  have hreads : ∀ l ∈ [assignment "x" (floatText x) (.float y)], Reads l.1 l.2 :=
    List.forall_mem_singleton.2 (reads_line_float (by decide) hread)
  have hmark := head?_text_ne (wellNamed_alone x)
  refine ⟨_, [("x", .float y)], write?_alone x, ?_, rfl⟩
  rw [htext] at hmark
  rw [read?_ofList, htext, read?_flatMap hreads hmark]
  rfl

/-- Nothing is read out of the document of a number whose text ends too early. -/
theorem read?_alone_eq_none
    (hearly : ∀ value left, scalar? (floatText x ++ ['\n']) = some (value, left) →
      ∃ more, left = '.' :: more) : read? (alone x).text = none := by
  obtain ⟨c, more, hcons, hc⟩ := floatText_eq_cons x
  have htext : (alone x).text = 'x' :: ' ' :: '=' :: ' ' :: (floatText x ++ ['\n']) :=
    (List.append_nil _).trans (List.append_nil (line "x" (floatText x)))
  have hskip : skipBlanks (' ' :: (floatText x ++ ['\n'])) = floatText x ++ ['\n'] := by
    rw [hcons]
    exact skipBlanks_cons (isBlank_of_startsNumber hc) _
  have hvalue (fuel : ℕ) : value? (fuel + 1) maxDepth (floatText x ++ ['\n']) =
      scalar? (floatText x ++ ['\n']) := by
    rw [hcons]
    exact value?_of_startsNumber hc fuel 79 _
  have hleft : ∀ statement left, statement? ('x' :: ' ' :: '=' :: ' ' ::
      (floatText x ++ ['\n'])) = some (statement, left) → endLine? left = none := by
    intro statement left hread
    have hstatement := statement?_assign (by decide : IsBareKey "x") hskip
    rw [hvalue] at hstatement
    obtain ⟨⟨value, left'⟩, hscalar, heq⟩ :=
      Option.map_eq_some_iff.1 (hstatement.symm.trans hread)
    obtain ⟨more', rfl⟩ := hearly value left' hscalar
    cases heq
    exact endLine?_cons rfl (by decide) more'
  rw [read?_eq_bind (head?_text_ne (wellNamed_alone x)), htext, List.length_cons,
    statements?_eq_none rfl (endLine?_cons rfl (by decide) _) hleft]
  rfl

theorem scans_of_rereads (hread : Rereads x y) : Scans x y := by
  obtain ⟨text, entries, hwrite, hread, hlookup⟩ := hread
  obtain rfl : .ofList (alone x).text = text := Option.some.inj ((write?_alone x).symm.trans hwrite)
  rcases scans_or_early x with ⟨z, hz⟩ | hearly
  · obtain ⟨text', entries', hwrite', hread', hlookup'⟩ := rereads_of_scans hz
    obtain rfl : .ofList (alone x).text = text' :=
      Option.some.inj ((write?_alone x).symm.trans hwrite')
    rw [hread, Option.some.injEq] at hread'
    rw [← hread', hlookup, Option.some.injEq, Value.float.injEq] at hlookup'
    rwa [hlookup']
  · rw [read?_ofList, read?_alone_eq_none hearly] at hread
    cases hread

end Alone

/-- The standard library is lawful. -/
theorem lawful_standardLibrary : Library.Lawful where
  exists_text_iff {fields} _ := by
    rw [write?_eq_ite]
    by_cases hfits : fields.Fits
    · exact iff_of_true ⟨_, if_pos hfits⟩ hfits
    · rw [if_neg hfits]
      exact iff_of_false nofun hfits
  exists_agrees {fields text} hnamed hwrite hnumbers := by
    obtain ⟨hfits, htext⟩ := Option.ite_none_right_eq_some.1 hwrite
    obtain rfl := Option.some.inj htext
    refine ⟨fields.entries, ?_, agrees_entries hnamed⟩
    rw [read?_ofList]
    exact read?_text hnamed hfits fun field hfield d hd x hx =>
      scans_of_rereads (hnumbers field hfield d hd x hx)
  read?_comment {fields text comment entries} hnamed hwrite hcomment hread := by
    obtain ⟨hfits, htext⟩ := Option.ite_none_right_eq_some.1 hwrite
    obtain rfl := Option.some.inj htext
    rw [read?_ofList] at hread
    have hlist : ("#" ++ comment ++ "\n\n" ++ String.ofList fields.text).toList =
        '#' :: comment.toList ++ ['\n'] ++ (['\n'] ++ fields.text) := by
      simp
    exact (congrArg read? hlist).trans
      (read?_comment_append hcomment (head?_text_ne hnamed) hread)
  rereads_zero {x} hx := by
    apply rereads_of_scans
    apply scans_of_isZero
    rcases Machine.eq_or_isZero_of_beq hx with rfl | ⟨hzero, -⟩
    · decide +kernel
    · exact hzero

end Standard

end Seeing.Toml
