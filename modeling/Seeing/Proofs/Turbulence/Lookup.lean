import Seeing.Proofs.Checks
import Seeing.Proofs.Scalar.Arithmetic
import Seeing.Proofs.Turbulence.Sampling

/-!
# Lookups that find nothing

A profile that passes its check has a strength at an altitude unless the lookup `Misses`:
neither end of the table takes the altitude, and the search for its neighbours ends before
the first. A sampled profile crashes at the first such layer, `ofReference_eq_crash_iff`.

The check does not look at whether the altitudes are finite. An infinite highest altitude
makes the altitude of the ground no number, which compares with nothing and misses the
table. So does an altitude that is no number at the start of the table, from which the
search cannot step back. These are all the ways in which the sampling crashes:
`ofReference_crash_iff`.
-/

namespace Seeing

namespace ReferenceProfile

section Table

variable {α : Type} [Scalar α] {p : ReferenceProfile α} {h : α}

/-- The lookup of an altitude finds nothing: neither end of the table takes it, and the
search ends before the first altitude. -/
structure Misses (p : ReferenceProfile α) (h : α) : Prop where
  first : ∀ first ∈ p.altitude.head?, ¬h ≤ first
  last : ∀ last ∈ p.altitude.getLast?, ¬last ≤ h
  place : p.place h = 0

theorem ne_nil_of_check (hcheck : p.check = .ok ()) : p.altitude ≠ [] := by
  rintro hnil
  rw [check_eq, misordered, hnil] at hcheck
  cases hcheck

theorem length_of_check (hcheck : p.check = .ok ()) : p.altitude.length = p.weight.length := by
  by_contra hlength
  have hmisordered : p.misordered = true := by simp [misordered, hlength]
  rw [check_eq, if_pos hmisordered] at hcheck
  cases hcheck

/-- A profile that passes its check has a strength wherever the lookup does not miss. -/
theorem interpolate?_eq_none_iff (hcheck : p.check = .ok ()) :
    p.interpolate? h = none ↔ p.Misses h := by
  have hne := ne_nil_of_check hcheck
  have hlength := length_of_check hcheck
  have hpos : 0 < p.altitude.length := List.length_pos_of_ne_nil hne
  have hhead := List.head?_eq_some_head hne
  have hlast := List.getLast?_eq_some_getLast hne
  rw [interpolate?_eq hne]
  by_cases hfirst : h ≤ p.altitude.head hne
  · -- at the first altitude or below
    rw [if_pos hfirst, List.head?_eq_none_iff, ← List.length_eq_zero_iff, ← hlength]
    constructor
    · intro hzero
      omega
    · intro hmisses
      exact absurd hfirst (hmisses.first _ hhead)
  rw [if_neg hfirst]
  by_cases hbeyond : p.altitude.getLast hne ≤ h
  · -- at the last altitude or above
    rw [if_pos hbeyond, List.getElem?_eq_none_iff]
    constructor
    · intro hle
      omega
    · intro hmisses
      exact absurd hbeyond (hmisses.last _ hlast)
  rw [if_neg hbeyond]
  by_cases hplace : p.place h = 0
  · rw [if_pos hplace]
    refine iff_of_true rfl ⟨?_, ?_, hplace⟩
    · rw [hhead]
      rintro _ ⟨⟩
      exact hfirst
    · rw [hlast]
      rintro _ ⟨⟩
      exact hbeyond
  · -- the two neighbours are altitudes of the table
    have hlt : p.place h < p.altitude.length := by
      apply partitionPoint_lt hpos
      rw [← List.getLast?_eq_getElem?, hlast]
      simpa using hbeyond
    rw [if_neg hplace, between?_eq hlt (hlength ▸ hlt)]
    exact iff_of_false (Option.some_ne_none _) fun hmisses => hplace hmisses.place

theorem misses_of_incomparable (hbelow : ∀ a ∈ p.altitude, ¬h ≤ a)
    (habove : ∀ a ∈ p.altitude, ¬a ≤ h) : p.Misses h where
  first first hfirst := hbelow first (List.mem_of_mem_head? hfirst)
  last last hlast := habove last (List.mem_of_mem_getLast? hlast)
  place := by
    apply partitionPoint_eq_zero
    intro i hi htest
    rw [List.getElem?_eq_getElem hi] at htest
    exact habove _ (List.getElem_mem hi) (by simpa using htest)

/-- A lookup that misses does not even pass the first altitude. -/
theorem Misses.not_le {first : α} (hmisses : p.Misses h)
    (hfirst : p.altitude.head? = some first) : ¬h ≤ first ∧ ¬first ≤ h := by
  refine ⟨hmisses.first first hfirst, ?_⟩
  intro hle
  have hpos : 0 < p.altitude.length := by
    rw [List.length_pos_iff]
    rintro hnil
    simp [hnil] at hfirst
  have hplace : 0 < p.place h := by
    apply partitionPoint_pos hpos
    rw [← List.head?_eq_getElem?, hfirst]
    simpa using hle
  exact hplace.ne' hmisses.place

end Table

section Machine

/-- A table that starts with what is no number. -/
def headless : ReferenceProfile Float := ⟨[0.0 / 0.0, 10], [1, 3]⟩

/-- A table up to an infinite altitude. -/
def endless : ReferenceProfile Float := ⟨[0, 1.0 / 0.0], [1, 3]⟩

variable {p : ReferenceProfile Float} {h : Float}

theorem misses_of_isNaN (hh : h.isNaN) : p.Misses h :=
  misses_of_incomparable (fun a _ => Machine.not_le_of_isNaN_left hh a)
    fun a _ => Machine.not_le_of_isNaN_right hh a

/-- Only what is no number misses a table that starts with a number. -/
theorem misses_iff_isNaN {first : Float} (hfirst : p.altitude.head? = some first)
    (hnumber : first.isNaN = false) : p.Misses h ↔ h.isNaN = true := by
  refine ⟨?_, misses_of_isNaN⟩
  intro hmisses
  obtain ⟨hbelow, habove⟩ := hmisses.not_le hfirst
  by_contra hh
  rcases Machine.le_or_le (by simpa using hh) hnumber with hle | hle
  · exact hbelow hle
  · exact habove hle

theorem isNaN_larger {x : Float} (hx : x.isNaN = false) (y : Float) :
    (Scalar.larger x y).isNaN = false := by
  rw [Scalar.larger]
  split_ifs with hxy hyx hyy
  · by_contra hy
    exact Machine.not_le_of_isNaN_right (by simpa using hy) x hxy
  · exact hx
  · exact Machine.le_self_iff.1 hyy
  · exact hx

theorem isNaN_maxAltitude {top : Float} (htop : p.maxAltitude? = some top) :
    top.isNaN = false := by
  refine List.foldlRecOn (motive := fun start : Option Float => ∀ x ∈ start, x.isNaN = false)
    p.altitude _ (by simp) ?_ top htop
  intro start hstart y _
  cases start with
  | none =>
      by_cases hy : y ≤ y
      · simpa [hy] using Machine.le_self_iff.1 hy
      · simp [hy]
  | some z =>
      rintro _ ⟨⟩
      exact isNaN_larger (hstart z rfl) y

end Machine

end ReferenceProfile

namespace TurbulenceProfile

section Sample

variable {α : Type} [Scalar α] {reference : ReferenceProfile α} {count : ℕ}

theorem mapM_eq_none_iff {β γ : Type} (f : β → Option γ) (xs : List β) :
    xs.mapM f = none ↔ ∃ x ∈ xs, f x = none := by
  induction xs with
  | nil => simp
  | cons x xs ih =>
      rw [List.mapM_cons]
      cases hx : f x with
      | none => simp [hx]
      | some y =>
          cases hxs : xs.mapM f with
          | none => simpa [hx] using ih.1 hxs
          | some ys =>
              have hnot : ¬∃ x ∈ xs, f x = none := fun hex => by
                rw [← ih, hxs] at hex
                cases hex
              simpa [hx] using hnot

/-- The altitude of a layer, counted from the ground. -/
def layerAltitude (top : α) (count i : ℕ) : α :=
  top * Scalar.ofNat i / Scalar.ofNat (count - 1)

/-- The layers cannot be sampled when there is no highest altitude or the lookup of a layer
misses. -/
theorem sample?_eq_none_iff (hcheck : reference.check = .ok ()) :
    sample? reference count = none ↔
      ∀ top ∈ reference.maxAltitude?, ∃ i < count,
        reference.Misses (layerAltitude top count i) := by
  cases htop : reference.maxAltitude? with
  | none => simp [sample?, htop]
  | some top =>
      have hlayers : sample? reference count = none ↔
          (spacedAltitudes top count).mapM reference.interpolate? = none := by
        rw [sample?, htop]
        cases hstrength : (spacedAltitudes top count).mapM reference.interpolate? <;>
          simp [hstrength]
      rw [hlayers, mapM_eq_none_iff, spacedAltitudes]
      simp only [List.mem_map, List.mem_range, Option.mem_some_iff, forall_eq']
      constructor
      · rintro ⟨_, ⟨i, hi, rfl⟩, hnone⟩
        exact ⟨i, hi, (ReferenceProfile.interpolate?_eq_none_iff hcheck).1 hnone⟩
      · rintro ⟨i, hi, hmisses⟩
        exact ⟨_, ⟨i, hi, rfl⟩, (ReferenceProfile.interpolate?_eq_none_iff hcheck).2 hmisses⟩

/-- A sampled profile crashes when its checks pass and a layer cannot be sampled. -/
theorem ofReference_eq_crash_iff :
    ofReference reference count = .error .crash ↔
      reference.check = .ok () ∧ 2 ≤ count ∧
        ∀ top ∈ reference.maxAltitude?, ∃ i < count,
          reference.Misses (layerAltitude top count i) := by
  cases hcheck : reference.check with
  | error fault => simp [ofReference_of_fault hcheck]
  | ok u =>
      by_cases hcount : count < 2
      · rw [ofReference_of_lt hcheck hcount]
        simp
        omega
      · rw [← sample?_eq_none_iff hcheck, ofReference, hcheck]
        simp only [if_neg hcount, true_and, Nat.not_lt.1 hcount]
        cases hsample : sample? reference count with
        | none => simp [Failure.ofOption, bind, Except.bind]
        | some sampled =>
            refine iff_of_false ?_ (Option.some_ne_none _)
            simp only [Failure.ofOption, bind, Except.bind]
            split_ifs <;> simp

end Sample

section Machine

variable {top : Float} {count : ℕ}

/-- Below an infinite highest altitude the ground is no number. -/
theorem isNaN_ground (htop : top.isInf) : (layerAltitude top count 0).isNaN = true := by
  have hzero : Machine.isZero (Scalar.ofNat 0 : Float) = true := Machine.isZero_ofNat_zero
  rw [layerAltitude, Machine.isNaN_div, Machine.isNaN_mul, htop, hzero]
  simp

theorem isNaN_layerAltitude (htop : top.isFinite) {i : ℕ} (hmany : count < 2 ^ 64)
    (hcount : 2 ≤ count) (hi : i < count) : (layerAltitude top count i).isNaN = false := by
  have hplace : (Machine.ofNat i).isFinite = true := by
    rcases Nat.eq_zero_or_pos i with rfl | hpos
    · decide
    · exact (Machine.kind_ofNat hpos (by omega)).1
  obtain ⟨hlast, hnonzero⟩ := Machine.kind_ofNat (n := count - 1) (by omega) (by omega)
  rw [Machine.isFinite_iff] at htop hplace hlast
  have hproduct : (top * Machine.ofNat i).isNaN = false := by
    rw [Machine.isNaN_mul, htop.1, htop.2, hplace.1, hplace.2]
    simp
  change (top * Machine.ofNat i / Machine.ofNat (count - 1)).isNaN = false
  rw [Machine.isNaN_div, hproduct, hlast.1, hlast.2, hnonzero]
  simp

/-- All the ways in which the sampling of a reference profile crashes. It passes its check
and there are layers to sample, but no altitude is a number; or the highest altitude is
infinite; or the first altitude is no number and the search for the altitude of some layer
ends before it. -/
theorem ofReference_crash_iff (reference : ReferenceProfile Float) {count : ℕ}
    (hmany : count < 2 ^ 64) :
    ofReference reference count = .error .crash ↔
      reference.check = .ok () ∧ 2 ≤ count ∧
        ∀ top ∈ reference.maxAltitude?, top.isInf = true ∨
          (∃ first ∈ reference.altitude.head?, first.isNaN = true) ∧
            ∃ i < count, reference.Misses (layerAltitude top count i) := by
  rw [ofReference_eq_crash_iff]
  refine and_congr_right fun hcheck => and_congr_right fun hcount => forall₂_congr ?_
  intro top htop
  have hnumber := ReferenceProfile.isNaN_maxAltitude htop
  constructor
  · rintro ⟨i, hi, hmisses⟩
    have hhead := List.head?_eq_some_head (ReferenceProfile.ne_nil_of_check hcheck)
    cases hfirst : (reference.altitude.head (ReferenceProfile.ne_nil_of_check hcheck)).isNaN with
    | true => exact .inr ⟨⟨_, hhead, hfirst⟩, i, hi, hmisses⟩
    | false =>
        -- only what is no number misses, and no layer below a finite altitude is that
        left
        by_contra hinf
        have hfinite : top.isFinite = true :=
          Machine.isFinite_iff.2 ⟨hnumber, Bool.eq_false_of_not_eq_true hinf⟩
        have hlayer := (ReferenceProfile.misses_iff_isNaN hhead hfirst).1 hmisses
        rw [isNaN_layerAltitude hfinite hmany hcount hi] at hlayer
        cases hlayer
  · rintro (hinf | ⟨-, hlayer⟩)
    · exact ⟨0, by omega, ReferenceProfile.misses_of_isNaN (isNaN_ground hinf)⟩
    · exact hlayer

/-- The altitude of the ground is below the second altitude and compares with nothing
before. -/
theorem ofReference_crash_iff_headless :
    3 < 2 ^ 64 ∧ ofReference ReferenceProfile.headless 3 = .error .crash := by
  refine ⟨by decide, (ofReference_crash_iff _ (by decide)).2
    ⟨ReferenceProfile.check_of_tests (by decide) (by decide), by decide, ?_⟩⟩
  intro top htop
  have hten : top = 10 := by
    have hmax : ReferenceProfile.headless.maxAltitude? = some 10 := by decide
    rw [hmax] at htop
    cases htop
    rfl
  subst hten
  refine .inr ⟨⟨_, rfl, by decide⟩, 0, by decide, ?_, ?_, ?_⟩
  · rintro _ ⟨⟩
    decide
  · rintro _ ⟨⟩
    decide
  · exact partitionPoint_eq_zero (by decide)

/-- The check accepts a table up to an infinite altitude, and its sampling crashes. -/
theorem ofReference_endless : ReferenceProfile.endless.check = .ok () ∧
    ofReference ReferenceProfile.endless 3 = .error .crash := by
  have hcheck : ReferenceProfile.endless.check = .ok () :=
    ReferenceProfile.check_of_tests (by decide) (by decide)
  refine ⟨hcheck, ofReference_eq_crash_iff.2 ⟨hcheck, by decide, ?_⟩⟩
  intro top htop
  have hmax : ReferenceProfile.endless.maxAltitude? = some (1.0 / 0.0) := by decide
  rw [hmax] at htop
  cases htop
  exact ⟨0, by decide, ReferenceProfile.misses_of_isNaN (isNaN_ground (by decide))⟩

end Machine

end TurbulenceProfile

end Seeing
