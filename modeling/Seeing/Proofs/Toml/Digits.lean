import Mathlib.Data.List.Basic
import Mathlib.Tactic.IntervalCases
import Seeing.Toml.Scalars
import Seeing.Toml.Writer

/-!
# Digits read back out of a text

A reader of digits takes all of them and leaves what follows: `moreDigits_append`,
`Whole.wholeDigits?_append`. Digits alone are a whole number, and neither a date nor a machine
number: `scalar?_toDigits`.
-/

namespace Seeing.Toml

/-- The text after a value without quotes: nothing, or what ends a value. -/
inductive Ended : List Char → Prop where
  | nil : Ended []
  | cons {c : Char} (hc : c ∈ ['\n', ',', ']']) (rest : List Char) : Ended (c :: rest)

section Digits

/-- Digits do not go on in the text. -/
def Stops (text : List Char) : Prop := ∀ c ∈ text.head?, c.isDigit = false ∧ c ≠ '_'

theorem stops_cons {c : Char} (hdigit : c.isDigit = false) (hline : c ≠ '_') (rest : List Char) :
    Stops (c :: rest) := by
  rintro _ ⟨⟩
  exact ⟨hdigit, hline⟩

theorem Ended.stops {text : List Char} (htext : Ended text) : Stops text := by
  cases htext with
  | nil => rintro _ ⟨⟩
  | cons hc rest =>
      simp only [List.mem_cons, List.not_mem_nil, or_false] at hc
      rcases hc with rfl | rfl | rfl <;> exact stops_cons rfl (by decide) rest

/-- Characters differ when only one of them is of a kind. -/
theorem ne_of_kind {kind : Char → Bool} {c d : Char} (hc : kind c = true) (hd : kind d = false) :
    c ≠ d := by
  rintro rfl
  exact Bool.false_ne_true (hd.symm.trans hc)

theorem cons_ne_of_kind {kind : Char → Bool} {c d : Char} {text text' : List Char}
    (hc : kind c = true) (hd : kind d = false) : c :: text ≠ d :: text' :=
  fun h => ne_of_kind hc hd (List.cons.inj h).1

theorem not_mem_of_kind {kind : Char → Bool} {c : Char} {chars : List Char}
    (hc : kind c = true) (hchars : chars.all (!kind ·) = true) : c ∉ chars := by
  intro hmem
  have hnot := List.all_eq_true.1 hchars c hmem
  rw [hc] at hnot
  cases hnot

theorem moreDigits_cons {c : Char} (hline : c ≠ '_') (rest : List Char) :
    moreDigits Char.isDigit (c :: rest) =
      if c.isDigit then (c :: (moreDigits Char.isDigit rest).1, (moreDigits Char.isDigit rest).2)
      else ([], c :: rest) := by
  rw [moreDigits.eq_def]
  simp [hline]

variable {digits rest : List Char}

theorem moreDigits_append (hdigits : ∀ c ∈ digits, c.isDigit = true) (hrest : Stops rest) :
    moreDigits Char.isDigit (digits ++ rest) = (digits, rest) := by
  induction digits with
  | nil =>
      cases rest with
      | nil => rfl
      | cons c rest =>
          obtain ⟨hdigit, hline⟩ := hrest c rfl
          rw [List.nil_append, moreDigits_cons hline, hdigit, if_neg Bool.false_ne_true]
  | cons d digits ih =>
      rw [List.forall_mem_cons] at hdigits
      rw [List.cons_append, moreDigits_cons (ne_of_kind hdigits.1 rfl), if_pos hdigits.1,
        ih hdigits.2]

theorem digits?_append (hdigits : ∀ c ∈ digits, c.isDigit = true) (hne : digits ≠ [])
    (hrest : Stops rest) : digits? Char.isDigit (digits ++ rest) = some (digits, rest) := by
  cases digits with
  | nil => exact absurd rfl hne
  | cons d digits =>
      rw [List.forall_mem_cons] at hdigits
      rw [List.cons_append, digits?, if_pos hdigits.1, moreDigits_append hdigits.2 hrest]

/-- The digits of a whole number: no zero leads others. -/
structure Whole (digits : List Char) : Prop where
  ne_nil : digits ≠ []
  isDigit : ∀ c ∈ digits, c.isDigit = true
  eq_zero : digits.head? = some '0' → digits = ['0']

theorem Whole.exists_cons (h : Whole digits) :
    ∃ d more, digits = d :: more ∧ d.isDigit = true := by
  obtain ⟨d, more, rfl⟩ := List.exists_cons_of_ne_nil h.ne_nil
  exact ⟨d, more, rfl, h.isDigit d List.mem_cons_self⟩

theorem Whole.wholeDigits?_append (h : Whole digits) (hrest : Stops rest) :
    wholeDigits? (digits ++ rest) = some (digits, rest) := by
  by_cases hzero : digits.head? = some '0'
  · rw [h.eq_zero hzero]
    rfl
  · rw [← digits?_append h.isDigit h.ne_nil hrest, wholeDigits?.eq_def]
    obtain ⟨d, more, rfl, -⟩ := h.exists_cons
    split
    · rename_i heq
      cases heq
      exact absurd rfl hzero
    · rfl

theorem head?_toDigits {n : ℕ} (hn : 0 < n) : (Nat.toDigits 10 n).head? ≠ some '0' := by
  induction n using Nat.strongRecOn with
  | ind n ih =>
      rw [Nat.toDigits_eq_if (by decide)]
      split
      · interval_cases n <;> decide
      · rw [List.head?_append_of_ne_nil _ Nat.toDigits_ne_nil]
        exact ih (n / 10) (by omega) (by omega)

theorem whole_toDigits (n : ℕ) : Whole (Nat.toDigits 10 n) where
  ne_nil := Nat.toDigits_ne_nil
  isDigit _ hc := Nat.isDigit_of_mem_toDigits (by decide) (by decide) hc
  eq_zero hzero := by
    rcases n.eq_zero_or_pos with rfl | hn
    · rfl
    · exact absurd hzero (head?_toDigits hn)

end Digits

section Moments

variable {digits rest : List Char} {c : Char}

/-- A number of fixed length at the start of some digits leaves the rest of them. -/
theorem fixedDigits?_append (hdigits : ∀ d ∈ digits, d.isDigit = true) (hc : c.isDigit = false)
    {count n : ℕ} {left : List Char}
    (h : fixedDigits? count (digits ++ c :: rest) = some (n, left)) :
    ∃ more, (∀ d ∈ more, d.isDigit = true) ∧ left = more ++ c :: rest := by
  rw [fixedDigits?] at h
  split_ifs at h with hall
  have hleft : left = (digits ++ c :: rest).drop count :=
    (congrArg Prod.snd (Option.some.inj h)).symm
  rcases Nat.lt_or_ge digits.length count with hlt | hle
  · -- the character after the digits would be one of the number
    have hmem : c ∈ (digits ++ c :: rest).take count := by
      rw [List.take_append, List.take_cons (by omega)]
      exact List.mem_append_right _ List.mem_cons_self
    exact absurd (List.all_eq_true.1 hall.2 c hmem) (by rw [hc]; exact Bool.false_ne_true)
  · refine ⟨digits.drop count, fun d hd => hdigits d (List.mem_of_mem_drop hd), ?_⟩
    rw [hleft, List.drop_append_of_le_length hle]

theorem word?_append_eq_none {w : Char} (hw : w.isDigit = false) (hne : w ≠ c)
    (hdigits : ∀ d ∈ digits, d.isDigit = true) : word? [w] (digits ++ c :: rest) = none := by
  cases digits with
  | nil => exact if_neg hne
  | cons d digits =>
      rw [List.forall_mem_cons] at hdigits
      exact if_neg (ne_of_kind hdigits.1 hw).symm

/-- Digits with neither a dash nor a colon after them are no date and no time. -/
theorem moment?_append_eq_none (hdigits : ∀ d ∈ digits, d.isDigit = true)
    (hc : c.isDigit = false) (hdash : c ≠ '-') (hcolon : c ≠ ':') :
    moment? (digits ++ c :: rest) = none := by
  have hdate : date? (digits ++ c :: rest) = none := by
    rw [date?]
    rcases hyear : fixedDigits? 4 (digits ++ c :: rest) with _ | ⟨year, left⟩
    · rfl
    · obtain ⟨more, hmore, rfl⟩ := fixedDigits?_append hdigits hc hyear
      simp [word?_append_eq_none rfl hdash.symm hmore]
  have htime : time? (digits ++ c :: rest) = none := by
    rw [time?]
    rcases hhour : fixedDigits? 2 (digits ++ c :: rest) with _ | ⟨hour, left⟩
    · rfl
    · obtain ⟨more, hmore, rfl⟩ := fixedDigits?_append hdigits hc hhour
      simp [word?_append_eq_none rfl hcolon.symm hmore]
  rw [moment?, hdate, htime]
  rfl

/-- Nothing but a digit starts a date or a time. -/
theorem moment?_cons_eq_none (hc : c.isDigit = false) : moment? (c :: rest) = none := by
  have hfixed (count : ℕ) : fixedDigits? (count + 1) (c :: rest) = none := by
    rw [fixedDigits?, if_neg]
    simp [hc]
  rw [moment?, date?, time?, hfixed, hfixed]
  rfl

end Moments

section Scalars

/-- What neither a quote nor a truth value starts is a date, a time or a number. -/
theorem scalar?_cons {c : Char} (hc : c ∉ ['"', '\'', 't', 'f']) (rest : List Char) :
    scalar? (c :: rest) =
      (moment? (c :: rest) <|> (decimal? (c :: rest)).map (Prod.map .float id) <|>
        (specialFloat? (c :: rest)).map (Prod.map .float id) <|>
        (integer? (c :: rest)).map (Prod.map .integer id)) := by
  simp only [List.mem_cons, List.not_mem_nil, or_false, not_or] at hc
  rw [scalar?.eq_def]
  split
  · exact absurd (List.cons.inj ‹_›).1 hc.1
  · exact absurd (List.cons.inj ‹_›).1 hc.2.1
  · exact absurd (List.cons.inj ‹_›).1 hc.2.2.1
  · exact absurd (List.cons.inj ‹_›).1 hc.2.2.2
  · rfl

theorem takeSign_digit {d : Char} (hd : d.isDigit = true) (rest : List Char) :
    FloatText.takeSign (d :: rest) = (false, d :: rest) := by
  rw [FloatText.takeSign.eq_def]
  split
  · exact absurd ‹_› (cons_ne_of_kind hd rfl)
  · exact absurd ‹_› (cons_ne_of_kind hd rfl)
  · rfl

theorem word?_cons_eq_none {w c : Char} (hne : w ≠ c) (word rest : List Char) :
    word? (w :: word) (c :: rest) = none :=
  if_neg hne

/-- The sign of a number and the digits after it. -/
theorem takeSign_whole (negative : Bool) {digits : List Char} (h : Whole digits)
    (rest : List Char) :
    FloatText.takeSign ((if negative then ['-'] else []) ++ digits ++ rest) =
      (negative, digits ++ rest) := by
  cases negative with
  | true => rfl
  | false =>
      obtain ⟨d, more, rfl, hd⟩ := h.exists_cons
      exact takeSign_digit hd _

theorem specialFloat?_whole (negative : Bool) {digits : List Char} (h : Whole digits)
    (rest : List Char) :
    specialFloat? ((if negative then ['-'] else []) ++ digits ++ rest) = none := by
  rw [specialFloat?, takeSign_whole negative h]
  obtain ⟨d, more, rfl, hd⟩ := h.exists_cons
  have hinf : word? "inf".toList (d :: more ++ rest) = none :=
    word?_cons_eq_none (ne_of_kind hd rfl).symm _ _
  have hnan : word? "nan".toList (d :: more ++ rest) = none :=
    word?_cons_eq_none (ne_of_kind hd rfl).symm _ _
  simp only [hinf, hnan, Option.map_none]

end Scalars

section Integers

variable {digits : List Char}

theorem takeSign_line (h : Whole digits) (rest : List Char) :
    FloatText.takeSign (digits ++ '\n' :: rest) = (false, digits ++ '\n' :: rest) :=
  takeSign_whole false h ('\n' :: rest)

theorem wholeDigits?_line (h : Whole digits) (rest : List Char) :
    wholeDigits? (digits ++ '\n' :: rest) = some (digits, '\n' :: rest) :=
  h.wholeDigits?_append (stops_cons rfl (by decide) rest)

/-- Digits without a point are no machine number. -/
theorem decimal?_line (h : Whole digits) (rest : List Char) :
    decimal? (digits ++ '\n' :: rest) = none := by
  rw [decimal?, takeSign_line h]
  simp only [wholeDigits?_line h]
  rfl

theorem fitsWord_natCast {n : ℕ} (hn : n ≤ 2 ^ 63 - 1) : fitsWord n = true := by
  rw [fitsWord, Bool.and_eq_true, decide_eq_true_eq, decide_eq_true_eq]
  omega

theorem integer?_line (h : Whole digits) (rest : List Char)
    (hfits : Nat.ofDigitChars 10 digits 0 ≤ 2 ^ 63 - 1) :
    integer? (digits ++ '\n' :: rest) =
      some (((Nat.ofDigitChars 10 digits 0 : ℕ) : ℤ), '\n' :: rest) := by
  -- a zero before the mark of a base would lead other digits
  have hbase (mark : Char) (hmark : mark ≠ '\n') (left : List Char) :
      digits ++ '\n' :: rest ≠ '0' :: mark :: left := by
    intro heq
    have hzero : digits.head? = some '0' := by
      obtain ⟨d, more, rfl, -⟩ := h.exists_cons
      exact congrArg some (List.cons.inj heq).1
    rw [h.eq_zero hzero] at heq
    exact hmark (List.cons.inj (List.cons.inj heq).2).1.symm
  rw [integer?.eq_def]
  split
  · exact absurd ‹_› (hbase 'x' (by decide) _)
  · exact absurd ‹_› (hbase 'o' (by decide) _)
  · exact absurd ‹_› (hbase 'b' (by decide) _)
  · rw [takeSign_line h]
    simp only [wholeDigits?_line h]
    rw [Option.bind_eq_bind, Option.bind_some, if_neg Bool.false_ne_true,
      if_pos (fitsWord_natCast hfits)]

theorem scalar?_toDigits {n : ℕ} (hn : n ≤ 2 ^ 63 - 1) (rest : List Char) :
    scalar? (Nat.toDigits 10 n ++ '\n' :: rest) = some (.integer n, '\n' :: rest) := by
  have hwhole := whole_toDigits n
  have hmoment : moment? (Nat.toDigits 10 n ++ '\n' :: rest) = none :=
    moment?_append_eq_none hwhole.isDigit rfl (by decide) (by decide)
  have hspecial : specialFloat? (Nat.toDigits 10 n ++ '\n' :: rest) = none :=
    specialFloat?_whole false hwhole ('\n' :: rest)
  have hinteger := integer?_line hwhole rest (by rwa [Nat.ofDigitChars_ten_toDigits])
  rw [Nat.ofDigitChars_ten_toDigits] at hinteger
  have hdecimal := decimal?_line hwhole rest
  obtain ⟨d, more, hdigits, hd⟩ := hwhole.exists_cons
  rw [hdigits, List.cons_append] at hmoment hspecial hinteger hdecimal ⊢
  rw [scalar?_cons (not_mem_of_kind hd rfl), hmoment, hdecimal, hspecial, hinteger]
  rfl

end Integers

end Seeing.Toml
