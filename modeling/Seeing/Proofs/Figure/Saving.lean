import Seeing.Proofs.CommandLine.Effects
import Seeing.Proofs.Figure.Painting

/-!
# Saving a figure

A figure is checked before anything is done to the surroundings. What the check refuses leaves them
as they are, `ran_save_of_error`, and what comes after it fails with the disk or the drawing only,
`throws_save`. So the errors of the check tell exactly which figures are refused. All others are
drawn: `save_outcome` says what is done to the surroundings and what the drawing looks like.
-/

namespace Seeing

section Throws

variable {σ ε β γ : Type} {kind : ε → Prop}

/-- An action on surroundings fails with errors of a kind only. -/
def Throws (kind : ε → Prop) (x : ExceptT ε (StateM σ) β) : Prop :=
  ∀ s fault s', x.run.run s = (.error fault, s') → kind fault

theorem throws_mk {outcome : Except ε β} (h : ∀ fault, outcome = .error fault → kind fault) :
    Throws kind (ExceptT.mk (pure outcome) : ExceptT ε (StateM σ) β) := by
  intro s fault s' hrun
  exact h fault (Prod.ext_iff.1 hrun).1

theorem throws_lift (x : StateM σ β) : Throws kind (ExceptT.lift x) := by
  intro s fault s' hrun
  cases (Prod.ext_iff.1 hrun).1

theorem Throws.bind {x : ExceptT ε (StateM σ) β} {f : β → ExceptT ε (StateM σ) γ}
    (hx : Throws kind x) (hf : ∀ b, Throws kind (f b)) : Throws kind (x >>= f) := by
  intro s fault s' hrun
  obtain ⟨⟨outcome, s₁⟩, hfirst⟩ : ∃ r, x.run.run s = r := ⟨_, rfl⟩
  rw [ExceptT.run_bind, StateT.run_bind, hfirst] at hrun
  cases outcome with
  | error fault' =>
      obtain rfl : fault' = fault := Except.error.inj (Prod.ext_iff.1 hrun).1
      exact hx s fault' s₁ hfirst
  | ok b => exact hf b s₁ fault s' hrun

theorem throws_orThrow (fault : DiskError → ε) (h : ∀ cause, kind (fault cause))
    (outcome : Except DiskError Unit) :
    Throws kind (orThrow fault outcome : ExceptT ε (StateM σ) Unit) := by
  cases outcome with
  | ok _ => exact throws_mk (by simp)
  | error cause => exact throws_mk (by rintro _ ⟨⟩; exact h cause)

theorem throws_forIn {f : β → ExceptT ε (StateM σ) Unit} (hf : ∀ b, Throws kind (f b))
    (bs : List β) : Throws kind
      (forIn bs PUnit.unit fun b _ => do f b; pure (.yield PUnit.unit)) := by
  induction bs with
  | nil => exact throws_mk (by simp)
  | cons b bs ih =>
      simp only [List.forIn_cons, bind_assoc, pure_bind]
      exact (hf b).bind fun _ => ih

end Throws

namespace Figure

section Check

variable {f : Figure} {count : ℕ}

theorem check_of_ne (hcount : count ≠ 4) : f.check count = .error (.points count) := if_pos hcount

theorem check_of_lt (hcount : count = 4) (hsmall : f.width < 4 ∨ f.height < 2) :
    f.check count = .error (.size f.width f.height) :=
  (if_neg (not_not.2 hcount)).trans (if_pos hsmall)

theorem check_of_not_lt (hcount : count = 4) (hlarge : ¬(f.width < 4 ∨ f.height < 2)) :
    f.check count = .ok () :=
  (if_neg (not_not.2 hcount)).trans (if_neg hlarge)

end Check

section Late

/-- An error of the disk or of the drawing. -/
def IsLate (fault : FigureError) : Prop :=
  fault = .drawing ∨ ∃ cause directory, fault = .directory cause directory

variable {fault : FigureError}

theorem IsLate.ne_points (h : IsLate fault) (count : ℕ) : fault ≠ .points count := by
  rcases h with rfl | ⟨cause, directory, rfl⟩ <;> simp

theorem IsLate.ne_size (h : IsLate fault) (width height : ℕ) : fault ≠ .size width height := by
  rcases h with rfl | ⟨cause, directory, rfl⟩ <;> simp

end Late

section Save

variable {σ : Type} [Disk (StateM σ)]

theorem throws_prepareDirectory (path : String) :
    Throws IsLate (prepareDirectory (m := StateM σ) path) := by
  unfold prepareDirectory
  cases Path.parent? path with
  | none => exact throws_mk (by simp)
  | some directory =>
      refine (throws_lift _).bind fun answer => ?_
      cases answer with
      | true => exact throws_mk (by simp)
      | false =>
          exact (throws_lift _).bind (throws_orThrow (FigureError.directory · directory)
            fun cause => .inr ⟨cause, directory, rfl⟩)

variable [MonadLog Float (StateM σ)] {f : Figure} {points : List (SweepPoint Float)}

/-- What passes the check fails with the disk or the drawing only. -/
theorem throws_save (hcheck : f.check points.length = .ok ()) (path : String) :
    Throws IsLate (f.save (m := StateM σ) points path) := by
  unfold save
  rw [hcheck]
  refine (throws_mk (by simp)).bind fun _ => (throws_prepareDirectory path).bind fun _ =>
    (throws_forIn (fun label => throws_lift _) _).bind fun _ => ?_
  split_ifs
  · exact (throws_lift _).bind
      (throws_orThrow (fun _ => FigureError.drawing) fun _ => .inl rfl)
  · exact throws_mk (by rintro _ ⟨⟩; exact .inl rfl)

/-- What the check refuses leaves the surroundings as they are. -/
theorem ran_save_of_error {fault : FigureError} (hcheck : f.check points.length = .error fault)
    (path : String) (s : σ) : Ran (f.save (m := Watched σ) points path).run
      (f.save points path).run s (.error fault) {} s := by
  unfold save
  rw [hcheck]
  exact (ran_mk _ s).bind_error

/-- What passes the check follows the plan of the figure. -/
theorem exists_ran_save (hcheck : f.check points.length = .ok ()) (path : String) (s : σ) :
    ∃ saved trace s',
      Ran (f.save (m := Watched σ) points path).run (f.save points path).run s saved trace s' ∧
      Follows trace.tried (f.deeds points path trace.looks) saved ∧
      ∀ fault, saved = .error fault → IsLate fault := by
  obtain ⟨saved, trace, s', hran, -, -, hfollows⟩ := ran_save_figure f points path s
  refine ⟨saved, trace, s', hran, hfollows, ?_⟩
  rintro fault rfl
  exact throws_save hcheck path s fault s' hran.plain

/-- A figure is refused, with nothing done to the surroundings, just if there are not four points or
else the figure has less than four columns or two rows of pixels. All others are drawn. However a
figure is divided into panels, each image is in the middle of its panel, and so it is in the
division that is drawn, with a tile for each pixel. The places of an image with finite pixels are
spread over the colour scale, unless the difference between its largest and smallest value is
infinite. -/
theorem save_outcome (f : Figure) (points : List (SweepPoint Float)) (path : String) (s : σ)
    (hwidth : f.width < 2 ^ 32)
    (hpoints : ∀ point ∈ points, ∀ image ∈ point.images, image.IsAddressable) :
    ∃ saved trace s',
      Ran (f.save (m := Watched σ) points path).run (f.save points path).run s saved trace s' ∧
      (∀ count, saved = .error (.points count) ↔ count = points.length ∧ points.length ≠ 4) ∧
      (∀ width height, saved = .error (.size width height) ↔
        (width = f.width ∧ height = f.height) ∧
          points.length = 4 ∧ (f.width < 4 ∨ f.height < 2)) ∧
      (points.length ≠ 4 ∨ f.width < 4 ∨ f.height < 2 → trace = {} ∧ s' = s) ∧
      (points.length = 4 → 4 ≤ f.width → 2 ≤ f.height →
        Follows trace.tried (f.deeds points path trace.looks) saved ∧
          (∀ t : Layout.Tiling f.width f.height, t.Arranged f.labelSize) ∧
          (∃ t : Layout.Tiling f.width f.height, t.panel = f.panelAt) ∧
          f.Arranged ∧ f.Drawn points ∧
          ∀ column row image, panelImage? points column row = some image → image.IsFinite →
            (stretch image).2.isFinite = true ∧ Spread image ∨
              (stretch image).2.isFinite = false ∧ Lost image) := by
  by_cases hcount : points.length = 4
  · by_cases hsmall : f.width < 4 ∨ f.height < 2
    · refine ⟨_, _, _, ran_save_of_error (check_of_lt hcount hsmall) path s, ?_, ?_,
        fun _ => ⟨rfl, rfl⟩, ?_⟩
      · simp [hcount]
      · intro width height
        rw [Except.error.injEq, FigureError.size.injEq, eq_comm, @eq_comm _ f.height]
        exact ⟨fun heq => ⟨heq, hcount, hsmall⟩, And.left⟩
      · omega
    · obtain ⟨saved, trace, s', hran, hfollows, hlate⟩ :=
        exists_ran_save (check_of_not_lt hcount hsmall) path s
      refine ⟨saved, trace, s', hran, fun count => ?_, fun width height => ?_, ?_, fun _ _ _ => ?_⟩
      · exact iff_of_false (fun hsaved => (hlate _ hsaved).ne_points count rfl) fun h => h.2 hcount
      · exact iff_of_false (fun hsaved => (hlate _ hsaved).ne_size width height rfl)
          fun h => hsmall h.2.2
      · rintro (hne | hlt)
        · exact absurd hcount hne
        · exact absurd hlt hsmall
      · have hcolumns : Layout.columns ≤ f.width := not_lt.1 fun hlt => hsmall (.inl hlt)
        have hrows : Layout.rows ≤ f.height := not_lt.1 fun hlt => hsmall (.inr hlt)
        have harranged : f.Arranged := arranged hcolumns hrows
        exact ⟨hfollows, fun t => t.arranged f.labelSize, ⟨f.split hcolumns hrows, rfl⟩, harranged,
          drawn hwidth harranged hcount hpoints, fun _ _ _ _ hfinite => spread_or_lost hfinite⟩
  · refine ⟨_, _, _, ran_save_of_error (check_of_ne hcount) path s, ?_, ?_,
      fun _ => ⟨rfl, rfl⟩, ?_⟩
    · simp [hcount, eq_comm]
    · simp [hcount]
    · intro hcount'
      exact absurd hcount' hcount

end Save

section Pair

/-- An image of two pixels, side by side. -/
def pair (low high : Float) : Image Float := ⟨2, 1, 1, ⟨#v[low, high]⟩, by decide, by decide⟩

/-- Four points whose images have two pixels each. -/
def pairPoints (low high : Float) : List (SweepPoint Float) :=
  .replicate 4 ⟨1, pair low high, pair low high, none, none⟩

/-- A figure with panels of nine pixels. -/
def small : Figure := { width := 12, height := 6, labelSize := 0 }

variable {low high : Float}

theorem forall_pair {p : Float → Prop} (hlow : p low) (hhigh : p high) (i : Fin 2) (j : Fin 1) :
    p ((pair low high).pixels.get i j) := by
  obtain rfl : j = 0 := Subsingleton.elim j 0
  fin_cases i
  · exact hlow
  · exact hhigh

theorem isFinite_pair (hlow : low.isFinite = true) (hhigh : high.isFinite = true) :
    (pair low high).IsFinite := forall_pair (p := (·.isFinite = true)) hlow hhigh

theorem not_isFlat_pair (hlt : low < high) : ¬(pair low high).IsFlat :=
  fun hflat => hflat (0 : Fin 2) (0 : Fin 1) (1 : Fin 2) (0 : Fin 1) hlt

theorem isHighest_pair (hle : low ≤ high) (hself : high ≤ high) :
    (pair low high).IsHighest (1 : Fin 2) (0 : Fin 1) := forall_pair (p := (· ≤ high)) hle hself

theorem isAddressable_pairPoints : ∀ point ∈ pairPoints low high, ∀ image ∈ point.images,
    image.IsAddressable := by
  simp [pairPoints, SweepPoint.images, pair, Image.IsAddressable]

theorem panelImage_pairPoints : panelImage? (pairPoints low high) 0 0 = some (pair low high) := rfl

theorem save_outcome_small : ∃ saved trace s',
    Ran (small.save (m := Watched World) (pairPoints (-1) 1) "figure.png").run
        (small.save (pairPoints (-1) 1) "figure.png").run {} saved trace s' ∧
      (∀ count, saved ≠ .error (.points count)) ∧
      Follows trace.tried (small.deeds (pairPoints (-1) 1) "figure.png" trace.looks) saved ∧
      (∃ t : Layout.Tiling 12 6, t.panel = small.panelAt ∧ t.Arranged 0) ∧
      small.Arranged ∧ small.Drawn (pairPoints (-1) 1) ∧ Spread (pair (-1) 1) := by
  obtain ⟨saved, trace, s', hran, hpoints, -, -, hdrawn⟩ :=
    save_outcome small (pairPoints (-1) 1) "figure.png" ({} : World) (by decide)
      isAddressable_pairPoints
  obtain ⟨hfollows, htilings, ⟨t, ht⟩, harranged, hdrawn, hscale⟩ :=
    hdrawn rfl (by decide) (by decide)
  refine ⟨saved, trace, s', hran, fun count h => ((hpoints count).1 h).2 rfl, hfollows,
    ⟨t, ht, htilings t⟩, harranged, hdrawn, ?_⟩
  have hspan : (stretch (pair (-1) 1)).2.isFinite = true := by decide +kernel
  have hfinite : (pair (-1) 1).IsFinite := isFinite_pair (by decide) (by decide)
  rcases hscale 0 0 _ panelImage_pairPoints hfinite with ⟨-, hspread⟩ | ⟨hinfinite, -⟩
  · exact hspread
  · rw [hspan] at hinfinite
    cases hinfinite

/-- The larger pixel of an image is not on the colour scale, as it is infinitely far from the
smaller one. -/
theorem exists_isHighest_isNaN : ∃ (image : Image Float) (i : Fin image.width)
    (j : Fin image.height), panelImage? (pairPoints (-1e308) 1e308) 0 0 = some image ∧
      image.IsFinite ∧ ¬image.IsFlat ∧ image.IsHighest i j ∧
      (parameter image i j).isNaN = true ∧ ¬parameter image i j ≤ 1 := by
  have hnan : (parameter (pair (-1e308) 1e308) (1 : Fin 2) (0 : Fin 1)).isNaN = true := by
    decide +kernel
  exact ⟨pair (-1e308) 1e308, (1 : Fin 2), (0 : Fin 1), panelImage_pairPoints,
    isFinite_pair (by decide +kernel) (by decide +kernel), not_isFlat_pair (by decide +kernel),
    isHighest_pair (by decide +kernel) (by decide +kernel), hnan,
    Machine.not_le_of_isNaN_left hnan 1⟩

end Pair

end Figure

end Seeing
