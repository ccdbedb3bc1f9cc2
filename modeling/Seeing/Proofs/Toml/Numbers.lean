import Seeing.Proofs.Scalar.Equality
import Seeing.Proofs.Toml.Digits

/-!
# Machine numbers read back out of a text

A machine number is written as a `Numeral`, which has a point between its digits, or as a word:
`floatText_cases`. `Scans x y` says that the text of `x` is read as `y`. What is read does not
depend on what ends the value: `Scans.scalar?_floatText_append`. The sign of a zero is read too:
`scans_of_isZero`.
-/

namespace Seeing.Toml

/-- A number written with a point. -/
structure Numeral where
  /-- Whether a minus sign stands before it. -/
  negative : Bool
  /-- The digits before the point. -/
  whole : List Char
  /-- The digits after the point. -/
  places : List Char
  whole_whole : Whole whole
  places_ne_nil : places ≠ []
  isDigit_of_mem_places : ∀ c ∈ places, c.isDigit = true

namespace Numeral

/-- The text of a number written with a point. -/
def text (n : Numeral) : List Char :=
  (if n.negative then ['-'] else []) ++ n.whole ++ '.' :: n.places

/-- The number that is read, unless it is too large. -/
def float? (n : Numeral) : Option Float :=
  let size := Decimal.toFloat ⟨Nat.ofDigitChars 10 (n.whole ++ n.places) 0, -n.places.length⟩
  if !n.negative && size.isInf then none else some (if n.negative then -size else size)

variable (n : Numeral) {rest : List Char}

theorem text_append (rest : List Char) :
    n.text ++ rest =
      (if n.negative then ['-'] else []) ++ n.whole ++ ('.' :: (n.places ++ rest)) := by
  simp only [text, List.append_assoc, List.cons_append]

theorem places?_append (hrest : Stops rest) :
    places? ('.' :: (n.places ++ rest)) = some (n.places, rest) :=
  digits?_append n.isDigit_of_mem_places n.places_ne_nil hrest

theorem decimal?_text_append (hrest : Ended rest) :
    decimal? (n.text ++ rest) = n.float?.map (·, rest) := by
  have hexponent : exponent? rest = none := by
    cases hrest with
    | nil => rfl
    | cons hc rest =>
        simp only [List.mem_cons, List.not_mem_nil, or_false] at hc
        rcases hc with rfl | rfl | rfl <;> rfl
  have hwhole : wholeDigits? (n.whole ++ '.' :: (n.places ++ rest)) =
      some (n.whole, '.' :: (n.places ++ rest)) :=
    n.whole_whole.wholeDigits?_append (stops_cons rfl (by decide) _)
  rw [decimal?, text_append, takeSign_whole _ n.whole_whole]
  simp only [hwhole, Option.bind_eq_bind, Option.bind_some]
  simp only [places?_append n hrest.stops, hexponent, Option.map_some, Option.getD_some,
    Option.getD_none, Option.isNone_some, Bool.false_and, Bool.false_eq_true, if_false,
    Int.zero_sub, float?]
  split <;> rfl

theorem moment?_text_append (rest : List Char) : moment? (n.text ++ rest) = none := by
  rw [text_append]
  cases n.negative with
  | true => exact moment?_cons_eq_none rfl
  | false =>
      exact moment?_append_eq_none n.whole_whole.isDigit rfl (by decide) (by decide)

theorem text_eq_cons : ∃ c more, n.text = c :: more ∧ c ∉ ['"', '\'', 't', 'f'] := by
  obtain ⟨d, more, hwhole, hd⟩ := n.whole_whole.exists_cons
  rw [text, hwhole]
  cases n.negative with
  | true => exact ⟨_, _, rfl, by decide⟩
  | false => exact ⟨_, _, rfl, not_mem_of_kind hd rfl⟩

/-- Without a machine number, the digits before the point are read as a whole number. -/
theorem scalar?_text_append (hrest : Ended rest) :
    scalar? (n.text ++ rest) = ((n.float?.map (·, rest)).map (Prod.map .float id) <|>
      (integer? (n.text ++ rest)).map (Prod.map .integer id)) := by
  have hspecial : specialFloat? (n.text ++ rest) = none := by
    rw [text_append]
    exact specialFloat?_whole _ n.whole_whole _
  have hmoment := n.moment?_text_append rest
  have hdecimal := n.decimal?_text_append hrest
  obtain ⟨c, more, htext, hc⟩ := n.text_eq_cons
  rw [htext, List.cons_append] at hspecial hmoment hdecimal ⊢
  rw [scalar?_cons hc, hmoment, hdecimal, hspecial]
  rfl

/-- The reader of whole numbers stops at the point. -/
theorem eq_of_integer?_text_append {k : ℤ} {left : List Char}
    (hread : integer? (n.text ++ rest) = some (k, left)) : left = '.' :: (n.places ++ rest) := by
  -- a zero before the mark of a base would lead other digits
  have hbase (mark : Char) (hmark : mark ≠ '.') (more : List Char) :
      n.text ++ rest ≠ '0' :: mark :: more := by
    rw [text_append]
    intro heq
    cases hnegative : n.negative with
    | true =>
        rw [hnegative] at heq
        cases heq
    | false =>
        rw [hnegative] at heq
        have hzero : n.whole.head? = some '0' := by
          obtain ⟨d, others, hwhole, -⟩ := n.whole_whole.exists_cons
          rw [hwhole] at heq ⊢
          exact congrArg some (List.cons.inj heq).1
        rw [n.whole_whole.eq_zero hzero] at heq
        exact hmark (List.cons.inj (List.cons.inj heq).2).1.symm
  rw [integer?.eq_def] at hread
  split at hread
  · exact absurd ‹_› (hbase 'x' (by decide) _)
  · exact absurd ‹_› (hbase 'o' (by decide) _)
  · exact absurd ‹_› (hbase 'b' (by decide) _)
  · have hwhole : wholeDigits? (n.whole ++ '.' :: (n.places ++ rest)) =
        some (n.whole, '.' :: (n.places ++ rest)) :=
      n.whole_whole.wholeDigits?_append (stops_cons rfl (by decide) _)
    rw [text_append, takeSign_whole _ n.whole_whole] at hread
    simp only [hwhole, Option.bind_eq_bind, Option.bind_some] at hread
    obtain ⟨-, heq⟩ := Option.ite_none_right_eq_some.1 hread
    exact (congrArg Prod.snd (Option.some.inj heq)).symm

end Numeral

section Text

theorem forall_mem_replicate_zero (k : ℕ) : ∀ c ∈ List.replicate k '0', c.isDigit = true := by
  intro c hc
  rw [List.eq_of_mem_replicate hc]
  rfl

theorem whole_of_exponent {coefficient : ℕ} (hne : coefficient ≠ 0) (e : ℕ) :
    Whole (Nat.toDigits 10 coefficient ++ List.replicate e '0') where
  ne_nil := List.append_ne_nil_of_left_ne_nil Nat.toDigits_ne_nil _
  isDigit := List.forall_mem_append.2
    ⟨(whole_toDigits coefficient).isDigit, forall_mem_replicate_zero e⟩
  eq_zero hzero := by
    rw [List.head?_append_of_ne_nil _ Nat.toDigits_ne_nil] at hzero
    exact absurd hzero (head?_toDigits (Nat.pos_of_ne_zero hne))

/-- The digits of a coefficient with zeros before them, so that one is left of `places` places. -/
def padded (coefficient places : ℕ) : List Char :=
  List.replicate (places + 1 - (Nat.toDigits 10 coefficient).length) '0' ++
    Nat.toDigits 10 coefficient

theorem isDigit_of_mem_padded (coefficient places : ℕ) :
    ∀ c ∈ padded coefficient places, c.isDigit = true :=
  List.forall_mem_append.2 ⟨forall_mem_replicate_zero _, (whole_toDigits coefficient).isDigit⟩

theorem lt_length_padded (coefficient places : ℕ) :
    places < (padded coefficient places).length := by
  rw [padded, List.length_append, List.length_replicate]
  omega

theorem whole_take_padded (coefficient : ℕ) {places : ℕ} (hplaces : 0 < places) :
    Whole ((padded coefficient places).take ((padded coefficient places).length - places)) where
  ne_nil := by
    rw [ne_eq, List.take_eq_nil_iff, ← List.length_eq_zero_iff]
    have := lt_length_padded coefficient places
    omega
  isDigit c hc := isDigit_of_mem_padded coefficient places c (List.mem_of_mem_take hc)
  eq_zero hzero := by
    have hlt := lt_length_padded coefficient places
    rw [List.head?_take, if_neg (by omega)] at hzero
    rcases Nat.lt_or_ge places (Nat.toDigits 10 coefficient).length with hlong | hshort
    · -- without a zero before them, the digits start with a zero only if they are one
      have hnone : padded coefficient places = Nat.toDigits 10 coefficient := by
        rw [padded, Nat.sub_eq_zero_of_le hlong, List.replicate_zero, List.nil_append]
      rw [hnone] at hzero
      rw [(whole_toDigits coefficient).eq_zero hzero, List.length_singleton] at hlong
      omega
    · have hlength : (padded coefficient places).length = places + 1 := by
        rw [padded, List.length_append, List.length_replicate]
        omega
      rw [hlength, Nat.add_sub_cancel_left]
      obtain ⟨c, more, hcons⟩ := List.exists_cons_of_length_eq_add_one hlength
      rw [hcons] at hzero ⊢
      cases hzero
      rfl

/-- The text of a decimal is that of a numeral. -/
theorem exists_numeral (negative : Bool) (d : Decimal) :
    ∃ n : Numeral, n.text = (if negative then ['-'] else []) ++ d.positional ++
      if 0 ≤ d.exponent then ['.', '0'] else [] := by
  obtain ⟨coefficient, e | e⟩ := d
  · have hzero : ∀ c ∈ ['0'], c.isDigit = true := List.forall_mem_singleton.2 rfl
    have hne : ['0'] ≠ [] := List.cons_ne_nil _ _
    have hexponent : (0 : ℤ) ≤ Int.ofNat e := Int.natCast_nonneg e
    by_cases hcoefficient : coefficient = 0
    · refine ⟨⟨negative, ['0'], ['0'], ⟨hne, hzero, fun _ => rfl⟩, hne, hzero⟩, ?_⟩
      simp only [Numeral.text, Decimal.positional, if_pos hcoefficient, if_pos hexponent]
    · refine ⟨⟨negative, _, ['0'], whole_of_exponent hcoefficient e, hne, hzero⟩, ?_⟩
      simp only [Numeral.text, Decimal.positional, if_neg hcoefficient, if_pos hexponent]
  · have hlt := lt_length_padded coefficient (e + 1)
    refine ⟨⟨negative, _, (padded coefficient (e + 1)).drop
      ((padded coefficient (e + 1)).length - (e + 1)), whole_take_padded coefficient e.succ_pos,
      ?_, fun c hc => isDigit_of_mem_padded coefficient (e + 1) c (List.mem_of_mem_drop hc)⟩, ?_⟩
    · rw [ne_eq, List.drop_eq_nil_iff]
      omega
    · have hexponent : ¬(0 : ℤ) ≤ Int.negSucc e := Int.not_le.2 (Int.negSucc_lt_zero e)
      simp only [Numeral.text, Decimal.positional, if_neg hexponent, List.append_nil,
        List.append_assoc]
      rfl

theorem scalar?_inf_append (negative : Bool) (rest : List Char) :
    scalar? ((if negative then ['-'] else []) ++ "inf".toList ++ rest) =
      some (.float (if negative then -(1.0 / 0.0) else 1.0 / 0.0), rest) := by
  cases negative with
  | true =>
      change scalar? ('-' :: 'i' :: 'n' :: 'f' :: rest) = _
      rw [scalar?_cons (by decide), moment?_cons_eq_none rfl]
      rfl
  | false =>
      change scalar? ('i' :: 'n' :: 'f' :: rest) = _
      rw [scalar?_cons (by decide), moment?_cons_eq_none rfl]
      rfl

theorem scalar?_nan_append (rest : List Char) :
    scalar? ("nan".toList ++ rest) = some (.float (0.0 / 0.0), rest) := by
  change scalar? ('n' :: 'a' :: 'n' :: rest) = _
  rw [scalar?_cons (by decide), moment?_cons_eq_none rfl]
  rfl

/-- A machine number is written as a numeral or as a word. -/
theorem floatText_cases (x : Float) :
    (∃ n : Numeral, n.text = floatText x) ∨
      (∃ negative : Bool, floatText x = (if negative then ['-'] else []) ++ "inf".toList) ∨
      floatText x = "nan".toList := by
  rw [floatText]
  split_ifs
  · exact .inl (exists_numeral _ _)
  · exact .inr (.inr rfl)
  · exact .inr (.inl ⟨true, rfl⟩)
  · exact .inr (.inl ⟨false, rfl⟩)

/-- The text of a machine number is read as a machine number. -/
def Scans (x y : Float) : Prop := scalar? (floatText x) = some (.float y, [])

/-- What is read from the text of a number does not depend on what follows it. -/
theorem Scans.scalar?_floatText_append {x y : Float} (hread : Scans x y) {rest : List Char}
    (hrest : Ended rest) : scalar? (floatText x ++ rest) = some (.float y, rest) := by
  rw [Scans] at hread
  rcases floatText_cases x with ⟨n, htext⟩ | ⟨negative, htext⟩ | htext
  · rw [← htext] at hread ⊢
    have hnil := n.scalar?_text_append Ended.nil
    rw [List.append_nil, hread] at hnil
    rw [n.scalar?_text_append hrest]
    cases hfloat : n.float? with
    | none =>
        -- the whole part alone would be read, as a whole number
        rw [hfloat] at hnil
        cases hinteger : integer? n.text with
        | none => rw [hinteger] at hnil; cases hnil
        | some read => rw [hinteger] at hnil; cases hnil
    | some z =>
        rw [hfloat] at hnil
        cases hnil
        rfl
  · rw [htext] at hread ⊢
    rw [← List.append_nil (_ ++ _), scalar?_inf_append] at hread
    rw [scalar?_inf_append]
    cases hread
    rfl
  · rw [htext] at hread ⊢
    rw [← List.append_nil "nan".toList, scalar?_nan_append] at hread
    rw [scalar?_nan_append]
    cases hread
    rfl

/-- A number that is not read as a machine number ends its line too early. -/
theorem scans_or_early (x : Float) : (∃ y, Scans x y) ∨
    ∀ value left, scalar? (floatText x ++ ['\n']) = some (value, left) →
      ∃ more, left = '.' :: more := by
  rcases floatText_cases x with ⟨n, htext⟩ | ⟨negative, htext⟩ | htext
  · cases hfloat : n.float? with
    | none =>
        right
        intro value left hread
        rw [← htext, n.scalar?_text_append (.cons (by decide) []), hfloat] at hread
        obtain ⟨⟨k, left'⟩, hinteger, hvalue⟩ := Option.map_eq_some_iff.1 hread
        cases hvalue
        exact ⟨_, n.eq_of_integer?_text_append hinteger⟩
    | some y =>
        left
        have hread := n.scalar?_text_append Ended.nil
        rw [List.append_nil, hfloat] at hread
        exact ⟨y, (congrArg scalar? htext.symm).trans hread⟩
  · have hread := scalar?_inf_append negative []
    rw [List.append_nil, ← htext] at hread
    exact .inl ⟨_, hread⟩
  · have hread := scalar?_nan_append []
    rw [List.append_nil, ← htext] at hread
    exact .inl ⟨_, hread⟩

/-- The signs of the two zeros are written. -/
theorem scans_of_isZero {x : Float} (hx : Machine.isZero x = true) : Scans x x := by
  rcases Machine.eq_zero_of_isZero hx with rfl | rfl
  · rfl
  · rfl

end Text

section Start

/-- Whether the text of a number may start with a character. -/
def startsNumber (c : Char) : Bool := c.isDigit || c = '-' || c = 'i' || c = 'n'

theorem startsNumber_of_isDigit {c : Char} (hc : c.isDigit = true) : startsNumber c = true := by
  simp only [startsNumber, hc, Bool.true_or]

theorem toDigits_eq_cons (n : ℕ) :
    ∃ c more, Nat.toDigits 10 n = c :: more ∧ startsNumber c = true := by
  obtain ⟨c, more, htext, hc⟩ := (whole_toDigits n).exists_cons
  exact ⟨c, more, htext, startsNumber_of_isDigit hc⟩

theorem floatText_eq_cons (x : Float) :
    ∃ c more, floatText x = c :: more ∧ startsNumber c = true := by
  rcases floatText_cases x with ⟨n, htext⟩ | ⟨negative, htext⟩ | htext
  · obtain ⟨d, more, hwhole, hd⟩ := n.whole_whole.exists_cons
    rw [← htext, Numeral.text, hwhole]
    cases n.negative with
    | true => exact ⟨_, _, rfl, rfl⟩
    | false => exact ⟨_, _, rfl, startsNumber_of_isDigit hd⟩
  · rw [htext]
    cases negative <;> exact ⟨_, _, rfl, rfl⟩
  · exact ⟨_, _, htext, rfl⟩

end Start

end Seeing.Toml
