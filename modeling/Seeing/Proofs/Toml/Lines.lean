import Seeing.Proofs.Toml.Numbers
import Seeing.Toml.Decoding
import Seeing.Toml.Reader

/-!
# Lines read back out of a document

`Reads line statement` says that a line at the start of a document gives the statement, or nothing,
and that the document goes on after it. Comments, headers and assignments are such lines, and the
document of some lines gives their statements: `statements?_flatMap`.
-/

namespace Seeing.Toml

section Values

theorem isBlank_of_startsNumber {c : Char} (hc : startsNumber c = true) : isBlank c = false := by
  simp only [isBlank, Bool.or_eq_false_iff, decide_eq_false_iff_not]
  exact ⟨ne_of_kind hc rfl, ne_of_kind hc rfl⟩

theorem value?_of_startsNumber {c : Char} (hc : startsNumber c = true) (fuel depth : ℕ)
    (rest : List Char) : value? (fuel + 1) (depth + 1) (c :: rest) = scalar? (c :: rest) := by
  rw [value?.eq_def]
  split
  · exact absurd ‹_› (cons_ne_of_kind hc rfl)
  · exact absurd ‹_› (cons_ne_of_kind hc rfl)
  · contradiction
  · contradiction
  · rfl

theorem value?_floatText_append {x y : Float} (hx : Scans x y) (fuel depth : ℕ) {rest : List Char}
    (hrest : Ended rest) :
    value? (fuel + 1) (depth + 1) (floatText x ++ rest) = some (.float y, rest) := by
  obtain ⟨c, more, htext, hc⟩ := floatText_eq_cons x
  rw [← hx.scalar?_floatText_append hrest, htext, List.cons_append, value?_of_startsNumber hc]

theorem value?_toDigits {n : ℕ} (hn : n ≤ 2 ^ 63 - 1) (fuel depth : ℕ) (rest : List Char) :
    value? (fuel + 1) (depth + 1) (Nat.toDigits 10 n ++ '\n' :: rest) =
      some (.integer n, '\n' :: rest) := by
  obtain ⟨c, more, htext, hc⟩ := toDigits_eq_cons n
  rw [← scalar?_toDigits hn, htext, List.cons_append, value?_of_startsNumber hc]

theorem skipFiller_of_startsNumber {c : Char} (hc : startsNumber c = true) (rest : List Char) :
    skipFiller false (c :: rest) = c :: rest := by
  rw [skipFiller.eq_def]
  split
  · contradiction
  · exact absurd ‹_› (cons_ne_of_kind hc rfl)
  · exact absurd ‹_› (cons_ne_of_kind hc rfl)
  · contradiction
  · exact absurd ‹_› (cons_ne_of_kind hc rfl)
  · cases ‹c :: rest = _›
    rw [isBlank_of_startsNumber hc, if_neg Bool.false_ne_true]

theorem skipFiller_floatText_append (x : Float) (rest : List Char) :
    skipFiller false (floatText x ++ rest) = floatText x ++ rest := by
  obtain ⟨c, more, htext, hc⟩ := floatText_eq_cons x
  rw [htext, List.cons_append, skipFiller_of_startsNumber hc]

/-- After a number in a list comes a comma and the other items, or the end of the list. -/
theorem items?_floatText {x : Float} (hx : Scans x x) (fuel depth : ℕ)
    {text left rest : List Char} (htext : skipFiller false text = floatText x ++ left) :
    (left = ',' :: rest → items? (fuel + 2) (depth + 1) text =
      (items? (fuel + 1) (depth + 1) rest).map (Prod.map (.float x :: ·) id)) ∧
    (left = ']' :: rest → items? (fuel + 2) (depth + 1) text = some ([.float x], rest)) := by
  have hvalue {c : Char} (hc : c ∈ ['\n', ',', ']']) :=
    value?_floatText_append hx fuel depth (Ended.cons hc rest)
  obtain ⟨c, more, hcons, hc⟩ := floatText_eq_cons x
  rw [hcons, List.cons_append] at htext
  rw [items?.eq_def]
  simp only [htext]
  split
  · exact absurd ‹_› (cons_ne_of_kind hc rfl)
  · rw [← List.cons_append, ← hcons]
    constructor
    · rintro rfl
      rw [hvalue (by decide)]
      cases hrest : items? (fuel + 1) (depth + 1) rest <;>
        simp [skipFiller, isBlank, hrest, Prod.map]
    · rintro rfl
      rw [hvalue (by decide)]
      simp [skipFiller, isBlank]

/-- The items of a list that are written on lines of their own. -/
def rows (xs : List Float) : List Char :=
  xs.flatMap fun x => [' ', ' ', ' ', ' '] ++ floatText x ++ [',', '\n']

theorem rows_cons (x : Float) (xs : List Float) (rest : List Char) :
    '\n' :: rows (x :: xs) ++ rest =
      '\n' :: ' ' :: ' ' :: ' ' :: ' ' :: (floatText x ++ ',' :: ('\n' :: rows xs ++ rest)) := by
  simp only [rows, List.flatMap_cons, List.append_assoc, List.cons_append, List.nil_append]

theorem items?_rows {xs : List Float} (hxs : ∀ x ∈ xs, Scans x x) {fuel : ℕ}
    (hfuel : xs.length < fuel) (depth : ℕ) (rest : List Char) :
    items? fuel (depth + 1) ('\n' :: rows xs ++ ']' :: rest) = some (xs.map .float, rest) := by
  induction xs generalizing fuel with
  | nil =>
      obtain ⟨fuel, rfl⟩ := Nat.exists_eq_add_of_lt hfuel
      rw [items?.eq_def]
      rfl
  | cons x xs ih =>
      rw [List.length_cons] at hfuel
      obtain ⟨fuel, rfl⟩ : ∃ k, fuel = k + 2 := ⟨fuel - 2, by omega⟩
      rw [List.forall_mem_cons] at hxs
      have htext : skipFiller false ('\n' :: ' ' :: ' ' :: ' ' :: ' ' ::
          (floatText x ++ ',' :: ('\n' :: rows xs ++ ']' :: rest))) =
          floatText x ++ ',' :: ('\n' :: rows xs ++ ']' :: rest) :=
        skipFiller_floatText_append x _
      -- one unit of fuel is for the list, and the next for the item or for what follows it
      rw [rows_cons, (items?_floatText hxs.1 fuel depth htext).1 rfl,
        ih hxs.2 (Nat.lt_of_succ_lt_succ hfuel)]
      rfl

theorem value?_floatsText_append {xs : List Float} (hxs : ∀ x ∈ xs, Scans x x) {fuel : ℕ}
    (hfuel : xs.length < fuel) (depth : ℕ) (rest : List Char) :
    value? (fuel + 1) (depth + 2) (floatsText xs ++ rest) =
      some (.array (xs.map .float), rest) := by
  have hvalue (text : List Char)
      (htext : items? fuel (depth + 1) (text ++ ']' :: rest) = some (xs.map .float, rest)) :
      value? (fuel + 1) (depth + 2) ('[' :: text ++ [']'] ++ rest) =
        some (.array (xs.map .float), rest) := by
    rw [List.append_assoc, List.cons_append, value?.eq_def]
    simp only [List.cons_append, List.nil_append, htext, Option.bind_eq_bind, Option.bind_some]
  rcases xs with _ | ⟨x, _ | ⟨y, xs⟩⟩
  · obtain ⟨fuel, rfl⟩ : ∃ k, fuel = k + 1 := ⟨fuel - 1, (Nat.succ_pred_eq_of_pos hfuel).symm⟩
    refine hvalue [] ?_
    rw [items?.eq_def]
    rfl
  · rw [List.length_singleton] at hfuel
    obtain ⟨fuel, rfl⟩ : ∃ k, fuel = k + 2 := ⟨fuel - 2, by omega⟩
    have htext := skipFiller_floatText_append x (']' :: rest)
    have hitems := (items?_floatText (hxs x List.mem_cons_self) fuel depth htext).2 rfl
    exact hvalue (floatText x) hitems
  · exact hvalue _ (items?_rows hxs hfuel depth rest)

theorem length_le_length_rows (xs : List Float) : xs.length ≤ (rows xs).length := by
  induction xs with
  | nil => exact Nat.le_refl 0
  | cons x xs ih =>
      have hcons := congrArg List.length (rows_cons x xs [])
      simp only [List.length_cons, List.length_append, List.length_nil] at hcons ⊢
      omega

/-- A text has a character for each item of a list, and one more. -/
theorem length_lt_length_floatsText (xs : List Float) : xs.length < (floatsText xs).length := by
  rcases xs with _ | ⟨x, _ | ⟨y, xs⟩⟩
  · exact Nat.two_pos
  · simp only [floatsText, List.length_cons, List.length_append, List.length_nil]
    omega
  · have hrows := length_le_length_rows (x :: y :: xs)
    change (x :: y :: xs).length < ('[' :: '\n' :: rows (x :: y :: xs) ++ [']']).length
    simp only [List.length_append, List.length_cons] at hrows ⊢
    omega

theorem floats?_map_float (xs : List Float) : (Value.array (xs.map .float)).floats? = some xs := by
  rw [Value.floats?]
  induction xs with
  | nil => rfl
  | cons x xs ih =>
      rw [List.map_cons, List.mapM_cons, ih]
      rfl

theorem floatsText_eq_cons (xs : List Float) : ∃ more, floatsText xs = '[' :: more := by
  rcases xs with _ | ⟨x, _ | ⟨y, xs⟩⟩ <;> exact ⟨_, rfl⟩

end Values

section Statements

theorem skipBlanks_cons {c : Char} (hc : isBlank c = false) (rest : List Char) :
    skipBlanks (c :: rest) = c :: rest := by
  rw [skipBlanks, List.dropWhile_cons, hc, if_neg Bool.false_ne_true]

variable {c : Char} {text left rest : List Char}

theorem statements?_of_endLine? (hc : isBlank c = false) (hend : endLine? (c :: text) = some rest)
    (fuel : ℕ) : statements? (fuel + 1) (c :: text) = statements? fuel rest := by
  rw [statements?, skipBlanks_cons hc]
  simp only [hend]

theorem statements?_of_statement? (hc : isBlank c = false) (hnone : endLine? (c :: text) = none)
    {statement : Statement} (hstatement : statement? (c :: text) = some (statement, left))
    (hend : endLine? left = some rest) (fuel : ℕ) :
    statements? (fuel + 1) (c :: text) = (statements? fuel rest).map (statement :: ·) := by
  rw [statements?, skipBlanks_cons hc]
  simp only [hnone, hstatement, hend, Option.bind_eq_bind, Option.bind_some]
  cases statements? fuel rest <;> rfl

/-- After a statement there is only blank space on its line. -/
theorem statements?_eq_none (hc : isBlank c = false) (hnone : endLine? (c :: text) = none)
    (hleft : ∀ statement left, statement? (c :: text) = some (statement, left) →
      endLine? left = none) (fuel : ℕ) : statements? (fuel + 1) (c :: text) = none := by
  rw [statements?, skipBlanks_cons hc]
  simp only [hnone]
  cases hstatement : statement? (c :: text) with
  | none => rfl
  | some read => simp [hleft read.1 read.2 hstatement]

/-- The line at the start of a document gives the statement, or none, and the document goes on after
it. -/
structure Reads (line : List Char) (statement : Option Statement) : Prop where
  ne_nil : line ≠ []
  statements?_append : ∀ fuel rest, statements? (fuel + 1) (line ++ rest) =
    (statements? fuel rest).map (statement.toList ++ ·)

theorem reads_blank : Reads ['\n'] none where
  ne_nil := List.cons_ne_nil _ _
  statements?_append fuel rest := by
    rw [List.singleton_append, statements?_of_endLine? rfl rfl]
    exact Option.map_id'.symm

theorem reads_comment (hprintable : text.all isPrintable = true) :
    Reads ('#' :: text ++ ['\n']) none where
  ne_nil := List.cons_ne_nil _ _
  statements?_append fuel rest := by
    have hdrop : (text ++ '\n' :: rest).dropWhile isPrintable = '\n' :: rest :=
      List.dropWhile_append_of_pos (List.all_eq_true.1 hprintable)
    have hend : endLine? ('#' :: (text ++ '\n' :: rest)) = some rest := by
      rw [endLine?, skipBlanks_cons rfl]
      simp only [hdrop]
    rw [List.append_assoc, List.cons_append, List.singleton_append,
      statements?_of_endLine? rfl hend]
    exact Option.map_id'.symm

/-- A key that needs no quotes. -/
structure IsBareKey (key : String) : Prop where
  ne_nil : key.toList ≠ []
  isBare : ∀ c ∈ key.toList, isBare c = true

instance (key : String) : Decidable (IsBareKey key) :=
  decidable_of_iff (key.toList ≠ [] ∧ key.toList.all isBare = true)
    ⟨fun h => ⟨h.1, List.all_eq_true.1 h.2⟩, fun h => ⟨h.ne_nil, List.all_eq_true.2 h.isBare⟩⟩

variable {key : String}

theorem IsBareKey.exists_cons (hkey : IsBareKey key) :
    ∃ c more, key.toList = c :: more ∧ Toml.isBare c = true := by
  obtain ⟨c, more, hcons⟩ := List.exists_cons_of_ne_nil hkey.ne_nil
  exact ⟨c, more, hcons, hkey.isBare c (hcons ▸ List.mem_cons_self)⟩

theorem isBlank_of_isBare (hc : isBare c = true) : isBlank c = false := by
  simp only [isBlank, Bool.or_eq_false_iff, decide_eq_false_iff_not]
  exact ⟨ne_of_kind hc rfl, ne_of_kind hc rfl⟩

/-- What a key, or the bracket of a header, starts is no end of a line. -/
theorem endLine?_cons (hblank : isBlank c = false) (hc : c ∉ ['#', '\n', '\r'])
    (text : List Char) : endLine? (c :: text) = none := by
  simp only [List.mem_cons, List.not_mem_nil, or_false, not_or] at hc
  simp [endLine?, skipBlanks_cons hblank, hc]

theorem simpleKey?_append (hkey : IsBareKey key) (hc : isBare c = false) (rest : List Char) :
    simpleKey? (key.toList ++ c :: rest) = some (key, c :: rest) := by
  have htake : (key.toList ++ c :: rest).takeWhile isBare = key.toList := by
    rw [List.takeWhile_append_of_pos hkey.isBare, List.takeWhile_cons, hc,
      if_neg Bool.false_ne_true, List.append_nil]
  have hdrop : (key.toList ++ c :: rest).dropWhile isBare = c :: rest := by
    rw [List.dropWhile_append_of_pos hkey.isBare, List.dropWhile_cons, hc,
      if_neg Bool.false_ne_true]
  obtain ⟨k, more, hcons, hk⟩ := hkey.exists_cons
  rw [simpleKey?.eq_def]
  split
  · rw [hcons] at *
    exact absurd ‹_› (cons_ne_of_kind hk rfl)
  · rw [hcons] at *
    exact absurd ‹_› (cons_ne_of_kind hk rfl)
  · simp only [htake, hdrop, List.isEmpty_eq_false_iff.2 hkey.ne_nil, String.ofList_toList,
      Bool.false_eq_true, if_false]

/-- A key with whatever follows it, blanks apart. -/
theorem key?_append (hkey : IsBareKey key) (fuel : ℕ) {d : Char} (hd : isBare d = false)
    (hleft : skipBlanks (d :: left) = c :: rest) (hdot : c ≠ '.') :
    key? (fuel + 1) (key.toList ++ d :: left) = some (([], key), c :: rest) := by
  have hskip : skipBlanks (key.toList ++ d :: left) = key.toList ++ d :: left := by
    obtain ⟨k, more, hcons, hk⟩ := hkey.exists_cons
    rw [hcons, List.cons_append, skipBlanks_cons (isBlank_of_isBare hk)]
  rw [key?, hskip, simpleKey?_append hkey hd]
  simp only [Option.bind_eq_bind, Option.bind_some, hleft]
  split
  · exact absurd (List.cons.inj ‹_›).1 hdot
  · rfl

theorem statement?_header (hkey : IsBareKey key) (rest : List Char) :
    statement? ('[' :: (key.toList ++ ']' :: rest)) = some (.table [] key, rest) := by
  obtain ⟨k, more, hcons, hk⟩ := hkey.exists_cons
  have hkeyed := key?_append hkey (more ++ ']' :: rest).length (d := ']') rfl
    (skipBlanks_cons rfl rest) (by decide)
  rw [hcons, List.cons_append] at hkeyed ⊢
  rw [statement?.eq_def]
  split
  · exact absurd (List.cons.inj (List.cons.inj ‹_›).2).1 (ne_of_kind hk rfl)
  · rename_i heq
    cases heq
    rw [List.length_cons, hkeyed]
    rfl
  · rename_i hheader
    exact (hheader _ rfl).elim

theorem statement?_assign (hkey : IsBareKey key) (htext : skipBlanks (' ' :: text) = text) :
    statement? (key.toList ++ ' ' :: '=' :: ' ' :: text) =
      (value? (text.length + 2) maxDepth text).map (Prod.map (.assign [] key) id) := by
  obtain ⟨k, more, hcons, hk⟩ := hkey.exists_cons
  have hskip : skipBlanks (' ' :: '=' :: ' ' :: text) = '=' :: ' ' :: text := rfl
  have hkeyed := key?_append hkey (more ++ ' ' :: '=' :: ' ' :: text).length rfl hskip (by decide)
  rw [hcons, List.cons_append] at hkeyed ⊢
  rw [statement?.eq_def]
  split
  · exact absurd ‹_› (cons_ne_of_kind hk rfl)
  · exact absurd ‹_› (cons_ne_of_kind hk rfl)
  · rw [List.length_cons, hkeyed]
    simp only [Option.bind_eq_bind, Option.bind_some, word?, if_true, htext, List.length_cons]
    exact Option.map_eq_bind.symm

/-- The header of a table. -/
theorem reads_header (hkey : IsBareKey key) :
    Reads ('[' :: key.toList ++ [']', '\n']) (some (.table [] key)) where
  ne_nil := List.cons_ne_nil _ _
  statements?_append fuel rest := by
    rw [List.append_assoc, List.cons_append, List.cons_append, List.singleton_append,
      statements?_of_statement? rfl (endLine?_cons rfl (by decide) _)
        (statement?_header hkey ('\n' :: rest)) rfl]
    rfl

/-- An assignment. -/
theorem reads_line (hkey : IsBareKey key) {value : Value} (hc : isBlank c = false)
    (hvalue : ∀ fuel rest, (c :: text).length ≤ fuel →
      value? (fuel + 1) maxDepth (c :: text ++ '\n' :: rest) = some (value, '\n' :: rest)) :
    Reads (line key (c :: text)) (some (.assign [] key value)) where
  ne_nil := List.append_ne_nil_of_right_ne_nil _ (List.cons_ne_nil _ _)
  statements?_append fuel rest := by
    have htext : line key (c :: text) ++ rest =
        key.toList ++ ' ' :: '=' :: ' ' :: (c :: text ++ '\n' :: rest) := by
      simp only [line, List.append_assoc, List.cons_append, List.nil_append]
    have hskip : skipBlanks (' ' :: (c :: text ++ '\n' :: rest)) = c :: text ++ '\n' :: rest :=
      skipBlanks_cons hc _
    have hstatement := statement?_assign hkey hskip
    rw [hvalue (c :: text ++ '\n' :: rest).length.succ rest
      (by rw [List.length_append]; omega)] at hstatement
    obtain ⟨k, more, hcons, hk⟩ := hkey.exists_cons
    rw [htext]
    rw [hcons, List.cons_append] at hstatement ⊢
    rw [statements?_of_statement? (isBlank_of_isBare hk)
      (endLine?_cons (isBlank_of_isBare hk) (not_mem_of_kind hk rfl) _) hstatement rfl]
    rfl

theorem reads_line_float (hkey : IsBareKey key) {x y : Float} (hx : Scans x y) :
    Reads (line key (floatText x)) (some (.assign [] key (.float y))) := by
  -- values may be nested eighty deep, and a number takes one of these levels, a list two
  have hvalue (fuel : ℕ) (rest : List Char) :
      value? (fuel + 1) maxDepth (floatText x ++ '\n' :: rest) = some (.float y, '\n' :: rest) :=
    value?_floatText_append hx fuel 79 (.cons (by decide) rest)
  obtain ⟨c, more, htext, hc⟩ := floatText_eq_cons x
  rw [htext] at hvalue ⊢
  exact reads_line hkey (isBlank_of_startsNumber hc) fun fuel rest _ => hvalue fuel rest

theorem reads_line_integer (hkey : IsBareKey key) {n : ℕ} (hn : n ≤ 2 ^ 63 - 1) :
    Reads (line key (Nat.toDigits 10 n)) (some (.assign [] key (.integer n))) := by
  have hvalue (fuel : ℕ) (rest : List Char) :
      value? (fuel + 1) maxDepth (Nat.toDigits 10 n ++ '\n' :: rest) =
        some (.integer n, '\n' :: rest) :=
    value?_toDigits hn fuel 79 rest
  obtain ⟨c, more, htext, hc⟩ := toDigits_eq_cons n
  rw [htext] at hvalue ⊢
  exact reads_line hkey (isBlank_of_startsNumber hc) fun fuel rest _ => hvalue fuel rest

theorem reads_line_floats (hkey : IsBareKey key) {xs : List Float} (hxs : ∀ x ∈ xs, Scans x x) :
    Reads (line key (floatsText xs)) (some (.assign [] key (.array (xs.map .float)))) := by
  have hvalue (fuel : ℕ) (rest : List Char) (hfuel : (floatsText xs).length ≤ fuel) :
      value? (fuel + 1) maxDepth (floatsText xs ++ '\n' :: rest) =
        some (.array (xs.map .float), '\n' :: rest) :=
    value?_floatsText_append hxs (Nat.lt_of_lt_of_le (length_lt_length_floatsText xs) hfuel) 78 _
  obtain ⟨more, htext⟩ := floatsText_eq_cons xs
  rw [htext] at hvalue ⊢
  exact reads_line hkey rfl hvalue

/-- A line that assigns a value to a key, with its statement. -/
def assignment (key : String) (text : List Char) (value : Value) : List Char × Option Statement :=
  (line key text, some (.assign [] key value))

/-- The document of some lines gives their statements. -/
theorem statements?_flatMap {lines : List (List Char × Option Statement)}
    (hlines : ∀ l ∈ lines, Reads l.1 l.2) {fuel : ℕ} (hfuel : lines.length < fuel) :
    statements? fuel (lines.flatMap Prod.fst) = some (lines.filterMap Prod.snd) := by
  induction lines generalizing fuel with
  | nil =>
      obtain ⟨fuel, rfl⟩ := Nat.exists_eq_add_of_lt hfuel
      rfl
  | cons l lines ih =>
      rw [List.length_cons] at hfuel
      obtain ⟨fuel, rfl⟩ : ∃ k, fuel = k + 1 := ⟨fuel - 1, by omega⟩
      rw [List.forall_mem_cons] at hlines
      rw [List.flatMap_cons, hlines.1.statements?_append,
        ih hlines.2 (Nat.lt_of_succ_lt_succ hfuel), List.filterMap_cons]
      cases l.2 <;> rfl

theorem length_le_length_flatMap {lines : List (List Char × Option Statement)}
    (hlines : ∀ l ∈ lines, Reads l.1 l.2) : lines.length ≤ (lines.flatMap Prod.fst).length := by
  induction lines with
  | nil => exact Nat.le_refl 0
  | cons l lines ih =>
      rw [List.forall_mem_cons] at hlines
      have hpos := List.length_pos_iff.2 hlines.1.ne_nil
      have := ih hlines.2
      rw [List.flatMap_cons, List.length_append, List.length_cons]
      omega

/-- A document is what its statements build, when no mark of the byte order comes before it. -/
theorem read?_eq_bind (hmark : text.head? ≠ some '\uFEFF') :
    read? text = (statements? (text.length + 1) text).bind fun statements =>
      (statements.foldlM Draft.apply? ⟨[], []⟩).map Draft.entries := by
  rw [read?.eq_def]
  split
  · exact absurd rfl hmark
  · simp only [Option.bind_eq_bind, Option.map_eq_bind]
    rfl

theorem read?_flatMap {lines : List (List Char × Option Statement)}
    (hlines : ∀ l ∈ lines, Reads l.1 l.2)
    (hmark : (lines.flatMap Prod.fst).head? ≠ some '\uFEFF') :
    read? (lines.flatMap Prod.fst) =
      ((lines.filterMap Prod.snd).foldlM Draft.apply? ⟨[], []⟩).map Draft.entries := by
  rw [read?_eq_bind hmark,
    statements?_flatMap hlines (Nat.lt_succ_of_le (length_le_length_flatMap hlines)),
    Option.bind_some]

/-- More fuel reads the same statements. -/
theorem statements?_mono {fuel : ℕ} {statements : List Statement}
    (hread : statements? fuel text = some statements) {more : ℕ} (hmore : fuel ≤ more) :
    statements? more text = some statements := by
  induction fuel generalizing text statements more with
  | zero =>
      obtain rfl : text = [] := by
        rw [statements?] at hread
        split at hread
        · exact List.isEmpty_iff.1 ‹_›
        · cases hread
      cases more <;> exact hread
  | succ fuel ih =>
      obtain ⟨more, rfl⟩ : ∃ k, more = k + 1 := ⟨more - 1, by omega⟩
      have hmore' : fuel ≤ more := Nat.le_of_succ_le_succ hmore
      rw [statements?] at hread ⊢
      split at hread
      · exact hread
      · split at hread
        · exact ih hread hmore'
        · simp only [Option.bind_eq_bind, Option.bind_eq_some_iff] at hread ⊢
          obtain ⟨read, hstatement, left, hend, others, hothers, heq⟩ := hread
          exact ⟨read, hstatement, left, hend, others, ih hothers hmore', heq⟩

/-- A comment and an empty line before a document change nothing. -/
theorem read?_comment_append {comment : List Char} (hcomment : comment.all isPrintable = true)
    (hmark : text.head? ≠ some '\uFEFF') {entries : Entries} (hread : read? text = some entries) :
    read? ('#' :: comment ++ ['\n'] ++ (['\n'] ++ text)) = some entries := by
  rw [read?_eq_bind hmark] at hread
  obtain ⟨statements, hstatements, hentries⟩ := Option.bind_eq_some_iff.1 hread
  obtain ⟨fuel, hfuel, hle⟩ : ∃ fuel,
      ('#' :: comment ++ ['\n'] ++ (['\n'] ++ text)).length + 1 = fuel + 1 + 1 ∧
        text.length + 1 ≤ fuel := by
    refine ⟨text.length + comment.length + 2, ?_, by omega⟩
    simp only [List.length_append, List.length_cons, List.length_nil]
    omega
  have hread' : statements? (fuel + 1 + 1) ('#' :: comment ++ ['\n'] ++ (['\n'] ++ text)) =
      some statements := by
    rw [(reads_comment hcomment).statements?_append, reads_blank.statements?_append,
      statements?_mono hstatements hle]
    rfl
  have hhead : ('#' :: comment ++ ['\n'] ++ (['\n'] ++ text)).head? ≠ some '\uFEFF' := by
    rw [List.cons_append, List.cons_append, List.head?_cons]
    decide
  rw [read?_eq_bind hhead, hfuel, hread']
  exact hentries

end Statements

end Seeing.Toml
