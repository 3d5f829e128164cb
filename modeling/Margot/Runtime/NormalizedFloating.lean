/-
The normalized distance between floating-point numbers.  Every operation rounds,
so what is computed is near the normalized distance, and an axis whose range
overflows spoils it as one without a range does.
-/
import Margot.Library.Floating
import Margot.Runtime.Normalized

namespace Margot

namespace FloatFormat

def arithmetic (f : FloatFormat) : FeatureArithmetic f.Value (Floating f) where
  copy := .finite
  less := Floating.less
  sub := Floating.sub
  mul := Floating.mul
  add := Floating.add
  store := id
  scale low high value := some ((value.sub low).div (high.sub low))

variable {f : FloatFormat} {n : Nat}

/-- The features as rationals. -/
def values (key : Fin (n + 1) → f.Value) : Fin (n + 1) → ℚ :=
  fun field => (key field).val

/-- Every axis has a range, which does not overflow. -/
def Spanned (f : FloatFormat) (input best target : Fin (n + 1) → ℚ) : Prop :=
  ∀ field, axisRange input best target field ≠ 0 ∧
    f.round (axisRange input best target field) < f.bound

instance (f : FloatFormat) (input best target : Fin (n + 1) → ℚ) :
    Decidable (Spanned f input best target) :=
  inferInstanceAs (Decidable (∀ field,
    axisRange input best target field ≠ 0 ∧
      f.round (axisRange input best target field) < f.bound))

section Ends

variable (input best target : Fin (n + 1) → f.Value) (field : Fin (n + 1))

theorem mono_val : Monotone (fun value : f.Value => value.val) :=
  fun _ _ hle => hle

theorem val_axisLow : (axisLow input best target field).val =
    axisLow (values input) (values best) (values target) field := by
  rw [axisLow, axisLow, mono_val.map_min, mono_val.map_min]
  rfl

theorem val_axisHigh : (axisHigh input best target field).val =
    axisHigh (values input) (values best) (values target) field := by
  rw [axisHigh, axisHigh, mono_val.map_max, mono_val.map_max]
  rfl

theorem axisRange_values :
    (axisHigh input best target field).val -
        (axisLow input best target field).val =
      axisRange (values input) (values best) (values target) field := by
  rw [val_axisHigh, val_axisLow]
  rfl

theorem axisRange_nonneg (input best target : Fin (n + 1) → ℚ) :
    0 ≤ axisRange input best target field := by
  have hinput := input_within input best target field
  exact sub_nonneg.mpr (hinput.1.trans hinput.2)

/-- The width of an axis, as it is computed. -/
def width : Floating f :=
  (Floating.finite (axisHigh input best target field)).sub
    (.finite (axisLow input best target field))

/-- A coordinate that is scaled to its axis. -/
def scaled (key : Fin (n + 1) → f.Value) : Floating f :=
  ((Floating.finite (key field)).sub
    (.finite (axisLow input best target field))).div
      (width input best target field)

theorem floating_normalize :
    f.arithmetic.normalizeDatafeatures n n.lt_succ_self
        (fun field => ⟨f.arithmetic.copy (input field),
          f.arithmetic.copy (best field), f.arithmetic.copy (target field)⟩) =
      some fun field => ⟨scaled input best target field input,
        scaled input best target field best,
        scaled input best target field target⟩ := by
  have hless : ∀ a b : f.Value, f.arithmetic.less (Floating.finite a)
      (Floating.finite b) = decide (a < b) := fun _ _ => rfl
  rw [FeatureArithmetic.normalizeDatafeatures_eq]
  intro field
  exact FeatureArithmetic.normalizeAxis_eq hless input best target field

theorem floating_getClosestNormalized {cfs : Fin (n + 1) → FeatureComparison}
    (hvalidity : Admissible cfs input best ↔ Admissible cfs input target) :
    f.arithmetic.getClosestNormalized cfs input best target =
      some ((f.arithmetic.distance
          (fun field => scaled input best target field input)
          (fun field => scaled input best target field target)
            n n.lt_succ_self).less
        (f.arithmetic.distance
          (fun field => scaled input best target field input)
          (fun field => scaled input best target field best)
            n n.lt_succ_self)) := by
  rw [FeatureArithmetic.getClosestNormalized_eq hvalidity, floating_normalize]
  rfl

theorem width_eq : width input best target field = Floating.ofRat f
    (axisRange (values input) (values best) (values target) field) := by
  rw [width, Floating.sub_eq (Floating.is_finite _) (Floating.is_finite _),
    axisRange_values]

variable {input best target field}

theorem width_is (hbound : f.round (axisRange (values input) (values best)
      (values target) field) < f.bound) :
    (width input best target field).Is
      (f.round (axisRange (values input) (values best) (values target)
        field)) := by
  have hnonneg : 0 ≤ f.round
      (axisRange (values input) (values best) (values target) field) :=
    round_nonneg (axisRange_nonneg _ _ _ _)
  rw [width_eq]
  exact Floating.ofRat_is (by rwa [abs_of_nonneg hnonneg])

/-- The rounding of a range is no zero. -/
theorem round_axisRange_pos
    (hrange : axisRange (values input) (values best) (values target) field ≠ 0) :
    0 < f.round (axisRange (values input) (values best) (values target)
      field) := by
  have hnonneg := axisRange_nonneg field (values input) (values best)
    (values target)
  have hround := round_sub_ne_zero (axisHigh input best target field).2
    (axisLow input best target field).2
    (by rw [axisRange_values]; exact hrange)
  rw [axisRange_values] at hround
  exact lt_of_le_of_ne (round_nonneg hnonneg) hround.symm

/-- Where an axis is not spanned, its width is zero, or no number. -/
theorem width_not_spanned
    (hnot : ¬ (axisRange (values input) (values best) (values target) field ≠ 0 ∧
      f.round (axisRange (values input) (values best) (values target) field) <
        f.bound)) {q : ℚ} (hwidth : (width input best target field).Is q) :
    q = 0 := by
  rw [width_eq] at hwidth
  by_cases hrange :
      axisRange (values input) (values best) (values target) field = 0
  · rw [hrange] at hwidth
    exact hwidth.unique Floating.ofRat_zero_is
  · have hbound : f.bound ≤ f.round
        (axisRange (values input) (values best) (values target) field) :=
      not_lt.mp fun hless => hnot ⟨hrange, hless⟩
    rw [Floating.ofRat_of_le (hbound.trans (le_abs_self _))] at hwidth
    obtain ⟨value, hvalue, -⟩ := hwidth
    contradiction

/-- The lower end of a spanned axis is scaled to zero. -/
theorem scaled_low {key : Fin (n + 1) → f.Value}
    (hbound : f.round (axisRange (values input) (values best)
      (values target) field) < f.bound)
    (hrange : axisRange (values input) (values best) (values target) field ≠ 0)
    (hkey : key field = axisLow input best target field) :
    (scaled input best target field key).Is 0 := by
  have hoffset := Floating.sub_eq (Floating.is_finite (key field))
    (Floating.is_finite (axisLow input best target field))
  have hzero : (Floating.ofRat f 0).Is 0 := Floating.ofRat_zero_is
  rw [hkey, sub_self] at hoffset
  rw [scaled, hkey, hoffset, Floating.div_eq hzero (width_is hbound)
    (round_axisRange_pos hrange).ne', zero_div]
  exact hzero

/-- The higher one is scaled to one. -/
theorem scaled_high {key : Fin (n + 1) → f.Value}
    (hbound : f.round (axisRange (values input) (values best)
      (values target) field) < f.bound)
    (hrange : axisRange (values input) (values best) (values target) field ≠ 0)
    (hkey : key field = axisHigh input best target field) :
    (scaled input best target field key).Is 1 := by
  have hwidth := width_is (f := f) hbound
  have hne := (round_axisRange_pos (f := f) hrange).ne'
  rw [scaled, hkey]
  change ((width input best target field).div
    (width input best target field)).Is 1
  rw [Floating.div_eq hwidth hwidth hne, div_self hne]
  exact Floating.ofRat_one_is

/-- Where the axis is not spanned, that one is scaled to no number. -/
theorem scaled_not_spanned {key : Fin (n + 1) → f.Value}
    (hnot : ¬ (axisRange (values input) (values best) (values target) field ≠ 0 ∧
      f.round (axisRange (values input) (values best) (values target) field) <
        f.bound))
    (hkey : key field = axisHigh input best target field) :
    scaled input best target field key = .nan := by
  rw [scaled, hkey]
  exact Floating.div_self_of_not fun _ hwidth =>
    width_not_spanned hnot hwidth

end Ends

section Distances

variable {origin target : Fin (n + 1) → Floating f} {index : Nat}

/-- What is not a number spoils the distance. -/
theorem distance_nan {field : Fin (n + 1)}
    (hnan : origin field = .nan ∨ target field = .nan) (hindex : index < n + 1)
    (hfield : field.val ≤ index) :
    f.arithmetic.distance origin target index hindex = .nan := by
  have hdifference : (origin field).sub (target field) = .nan := by
    rcases hnan with hnan | hnan
    · rw [hnan, Floating.nan_sub]
    · rw [hnan, Floating.sub_nan]
  induction index with
  | zero =>
      obtain rfl : field = ⟨0, hindex⟩ := Fin.ext (Nat.le_zero.mp hfield)
      exact congrArg (fun distance => distance.mul distance) hdifference
  | succ index ih =>
      by_cases htop : field = ⟨index + 1, hindex⟩
      · subst htop
        exact congrArg (fun distance => (distance.mul distance).add
          (f.arithmetic.distance origin target index (by omega))) hdifference
      · have hne : field.val ≠ index + 1 := fun heq => htop (Fin.ext heq)
        have hlower := ih (by omega) (by omega)
        rw [FeatureArithmetic.distance, hlower]
        exact Floating.add_nan _

theorem distance_notNegative (origin target : Fin (n + 1) → Floating f)
    (hindex : index < n + 1) :
    (f.arithmetic.distance origin target index hindex).NotNegative := by
  induction index with
  | zero => exact Floating.mul_self_notNegative _
  | succ index ih =>
      exact Floating.add_notNegative (Floating.mul_self_notNegative _) (ih _)

/-- A point is at no distance from itself. -/
theorem distance_self_vanishes (origin : Fin (n + 1) → Floating f)
    (hindex : index < n + 1) :
    (f.arithmetic.distance origin origin index hindex).Vanishes := by
  have hsquare : ∀ field, (((origin field).sub (origin field)).mul
      ((origin field).sub (origin field))).Vanishes :=
    fun field => (Floating.sub_self_vanishes (origin field)).mul_self
  induction index with
  | zero => exact hsquare _
  | succ index ih => exact (hsquare _).add (ih _)

theorem distance_self_is (hnumbers : ∀ field, ∃ q, (origin field).Is q)
    (hindex : index < n + 1) :
    (f.arithmetic.distance origin origin index hindex).Is 0 := by
  have hsquare : ∀ field, (((origin field).sub (origin field)).mul
      ((origin field).sub (origin field))).Is 0 := by
    intro field
    obtain ⟨q, hq⟩ := hnumbers field
    have hzero : (Floating.ofRat f 0).Is 0 := Floating.ofRat_zero_is
    rw [Floating.sub_eq hq hq, sub_self, Floating.mul_eq hzero hzero, mul_zero]
    exact hzero
  induction index with
  | zero => exact hsquare _
  | succ index ih =>
      have hzero : (Floating.ofRat f 0).Is 0 := Floating.ofRat_zero_is
      have hsum := Floating.add_eq (hsquare ⟨index + 1, hindex⟩)
        (ih (by omega))
      rw [add_zero] at hsum
      rw [← hsum] at hzero
      exact hzero

/-- Points that are apart by one on an axis are at least at that distance. -/
theorem distance_atLeast (happart : ∀ field,
      (((origin field).sub (target field)).mul
        ((origin field).sub (target field))).AtLeast 1)
    (hindex : index < n + 1) :
    (f.arithmetic.distance origin target index hindex).AtLeast 1 := by
  induction index with
  | zero => exact happart _
  | succ index ih =>
      exact Floating.add_atLeast round_one zero_le_one
        ((happart _).trans zero_le_one) (ih _)

end Distances

section Known

variable {cfs : Fin (n + 1) → FeatureComparison}
  {known best target : Fin (n + 1) → f.Value}

theorem axisHigh_known (known best : Fin (n + 1) → f.Value)
    (field : Fin (n + 1)) :
    (known field = axisHigh known best known field ∧
        best field = axisLow known best known field) ∨
      (known field = axisLow known best known field ∧
        best field = axisHigh known best known field) := by
  rcases le_total (known field) (best field) with hle | hle
  · refine .inr ⟨?_, ?_⟩
    · rw [axisLow, min_eq_left hle, min_self]
    · rw [axisHigh, max_eq_right hle, max_eq_left hle]
  · refine .inl ⟨?_, ?_⟩
    · rw [axisHigh, max_eq_left hle, max_self]
    · rw [axisLow, min_eq_right hle, min_eq_left hle]

/-- On a spanned axis the keys are scaled to its two ends. -/
theorem scaled_known (field : Fin (n + 1))
    (hspanned : Spanned f (values known) (values best) (values known)) :
    ((scaled known best known field known).Is 1 ∧
        (scaled known best known field best).Is 0) ∨
      ((scaled known best known field known).Is 0 ∧
        (scaled known best known field best).Is 1) := by
  obtain ⟨hrange, hbound⟩ := hspanned field
  rcases axisHigh_known known best field with ⟨hknown, hbest⟩ | ⟨hknown, hbest⟩
  · exact .inl ⟨scaled_high hbound hrange hknown,
      scaled_low hbound hrange hbest⟩
  · exact .inr ⟨scaled_low hbound hrange hknown,
      scaled_high hbound hrange hbest⟩

theorem square_known (field : Fin (n + 1))
    (hspanned : Spanned f (values known) (values best) (values known)) :
    (((scaled known best known field known).sub
        (scaled known best known field best)).mul
      ((scaled known best known field known).sub
        (scaled known best known field best))).AtLeast 1 := by
  have hone : (Floating.ofRat f 1).Is 1 := Floating.ofRat_one_is
  have hneg : (Floating.ofRat f (-1)).Is (-1) := Floating.ofRat_neg_one_is
  rcases scaled_known field hspanned with ⟨hknown, hbest⟩ | ⟨hknown, hbest⟩
  · rw [Floating.sub_eq hknown hbest, sub_zero, Floating.mul_eq hone hone,
      one_mul]
    exact hone.atLeast le_rfl
  · rw [Floating.sub_eq hknown hbest, zero_sub, Floating.mul_eq hneg hneg,
      neg_mul_neg, one_mul]
    exact hone.atLeast le_rfl

theorem floating_replaces_iff :
    f.arithmetic.getClosestNormalized cfs known best known = some true ↔
      (Admissible cfs known best →
        Spanned f (values known) (values best) (values known)) := by
  have hknown := admissible_self cfs known
  by_cases hbest : Admissible cfs known best
  · rw [imp_iff_right hbest,
      floating_getClosestNormalized _ _ _ (iff_of_true hbest hknown),
      Option.some.injEq]
    by_cases hspanned : Spanned f (values known) (values best) (values known)
    · refine iff_of_true ?_ hspanned
      apply Floating.less_of_atLeast zero_lt_one
      · apply distance_self_is
        intro field
        rcases scaled_known field hspanned with
          ⟨hscaled, -⟩ | ⟨hscaled, -⟩
        · exact ⟨1, hscaled⟩
        · exact ⟨0, hscaled⟩
      · exact distance_atLeast (fun field => square_known field hspanned) _
    · refine iff_of_false ?_ hspanned
      obtain ⟨field, hnot⟩ := not_forall.mp hspanned
      have hnan : scaled known best known field known = .nan ∨
          scaled known best known field best = .nan := by
        rcases axisHigh_known known best field with ⟨hhigh, -⟩ | ⟨-, hhigh⟩
        · exact .inl (scaled_not_spanned hnot hhigh)
        · exact .inr (scaled_not_spanned hnot hhigh)
      have hspoiled : f.arithmetic.distance
          (fun field => scaled known best known field known)
          (fun field => scaled known best known field best)
            n n.lt_succ_self = .nan :=
        distance_nan hnan _ (by omega)
      rw [hspoiled, Floating.less_nan]
      exact Bool.false_ne_true
  · exact iff_of_true
      (FeatureArithmetic.getClosestNormalized_of_valid_target hbest hknown)
      fun hvalid => absurd hvalid hbest

/-- No target replaces the known key. -/
theorem floating_stays :
    f.arithmetic.getClosestNormalized cfs known known target = some false := by
  have hknown := admissible_self cfs known
  by_cases htarget : Admissible cfs known target
  · rw [floating_getClosestNormalized _ _ _ (iff_of_true hknown htarget),
      Option.some.injEq]
    exact Floating.less_of_vanishes (distance_notNegative _ _ _)
      (distance_self_vanishes _ _)
  · exact FeatureArithmetic.getClosestNormalized_of_valid_best hknown htarget

end Known

end FloatFormat

end Margot
