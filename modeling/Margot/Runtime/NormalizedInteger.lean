/-
The normalized distance between integers.  Of a scaled integer nothing is left
but whether it is the end of the range, so that the distance counts axes.
-/
import Margot.Runtime.Normalized

namespace Margot

namespace IntegerType

variable {type : IntegerType} {n : Nat}

/-- A difference is undefined only where a signed type overflows. -/
theorem difference_eq {low high : Int} (hlow : type.Holds low)
    (hhigh : type.Holds high) (hle : low ≤ high) :
    type.difference high low =
      if type.promoted.Holds (high - low) then some (high - low) else none := by
  rw [difference]
  by_cases hsigned : type.promoted.signed = true
  · rw [if_pos hsigned]
  · have hsame : type.promoted = type := by
      obtain ⟨width, signed⟩ := type
      cases width
      · contradiction
      · contradiction
      · rfl
      · rfl
    have hholds : type.promoted.Holds (high - low) := by
      rw [hsame] at hsigned ⊢
      exact holds_sub_of_unsigned hsigned hhigh hlow hle
    rw [if_neg hsigned, if_pos hholds, wrap_of_holds hholds]

/-- Of a scaled integer nothing is left but whether it is the end of the
range. -/
theorem scale_eq {low high value : Int} (hlow : type.Holds low)
    (hhigh : type.Holds high) (hvalue : type.Holds value)
    (habove : low ≤ value) (hbelow : value ≤ high) :
    type.arithmetic.scale low high value =
      if high - low ≠ 0 ∧ type.promoted.Holds (high - low) then
        some (if value = high then 1 else 0)
      else none := by
  have hwidth := difference_eq hlow hhigh (habove.trans hbelow)
  have hoffset := difference_eq hlow hvalue habove
  have hscale : type.arithmetic.scale low high value =
      (type.difference high low).bind fun width =>
        (type.difference value low).bind fun offset =>
          (quotient offset width).map type.wrap := by
    simp only [Option.map_eq_bind]
    rfl
  rw [hscale]
  by_cases hholds : type.promoted.Holds (high - low)
  · have hinside : type.promoted.Holds (value - low) :=
      holds_of_le (by omega) (by omega) hholds
    rw [if_pos hholds] at hwidth
    rw [if_pos hinside] at hoffset
    rw [hwidth, hoffset, Option.bind_some, Option.bind_some, quotient]
    by_cases hzero : high - low = 0
    · rw [if_pos hzero, if_neg fun hboth => hboth.1 hzero]
      rfl
    · rw [if_neg hzero, if_pos ⟨hzero, hholds⟩, Option.map_some]
      by_cases hend : value = high
      · rw [if_pos hend, hend, Int.tdiv_self hzero,
          wrap_of_holds type.holds_one]
      · rw [if_neg hend, Int.tdiv_eq_zero_of_lt (by omega) (by omega),
          wrap_zero]
  · rw [if_neg hholds] at hwidth
    rw [hwidth, if_neg fun hboth => hholds hboth.2]
    rfl

/-- The axes on which one of the two points is at the end of the range, and the
other one is not. -/
def apart (input best target key : Fin (n + 1) → Int) : Int :=
  (Finset.univ.filter fun field =>
    ¬ (input field = axisHigh input best target field ↔
      key field = axisHigh input best target field)).card

/-- Every axis has a range, which the promoted type holds. -/
def Spanned (type : IntegerType) (input best target : Fin (n + 1) → Int) :
    Prop :=
  ∀ field, axisRange input best target field ≠ 0 ∧
    type.promoted.Holds (axisRange input best target field)

instance (type : IntegerType) (input best target : Fin (n + 1) → Int) :
    Decidable (Spanned type input best target) :=
  inferInstanceAs (Decidable (∀ field,
    axisRange input best target field ≠ 0 ∧
      type.promoted.Holds (axisRange input best target field)))

section Normalizing

variable (input best target : Fin (n + 1) → type.Value) (field : Fin (n + 1))

/-- The features as integers. -/
def values (key : Fin (n + 1) → type.Value) : Fin (n + 1) → Int :=
  fun field => (key field).val

theorem holds_axisLow : type.Holds
    (axisLow (values input) (values best) (values target) field) := by
  rw [axisLow]
  rcases min_choice (min (values input field) (values best field))
    (values target field) with hmin | hmin
  · rw [hmin]
    rcases min_choice (values input field) (values best field) with hmin | hmin
    · rw [hmin]
      exact (input field).2
    · rw [hmin]
      exact (best field).2
  · rw [hmin]
    exact (target field).2

theorem holds_axisHigh : type.Holds
    (axisHigh (values input) (values best) (values target) field) := by
  rw [axisHigh]
  rcases max_choice (max (values input field) (values best field))
    (values target field) with hmax | hmax
  · rw [hmax]
    rcases max_choice (values input field) (values best field) with hmax | hmax
    · rw [hmax]
      exact (input field).2
    · rw [hmax]
      exact (best field).2
  · rw [hmax]
    exact (target field).2

/-- The normalized point, where every axis is spanned. -/
def integerScaled (input best target key : Fin (n + 1) → Int)
    (field : Fin (n + 1)) : Int :=
  if key field = axisHigh input best target field then 1 else 0

theorem integer_normalizeAxis :
    type.arithmetic.normalizeAxis ⟨type.arithmetic.copy (input field),
        type.arithmetic.copy (best field), type.arithmetic.copy (target field)⟩ =
      if axisRange (values input) (values best) (values target) field ≠ 0 ∧
          type.promoted.Holds
            (axisRange (values input) (values best) (values target) field) then
        some ⟨
          integerScaled (values input) (values best) (values target)
            (values input) field,
          integerScaled (values input) (values best) (values target)
            (values best) field,
          integerScaled (values input) (values best) (values target)
            (values target) field⟩
      else none := by
  have hlow := holds_axisLow input best target field
  have hhigh := holds_axisHigh input best target field
  have hinput := input_within (values input) (values best) (values target) field
  have hbest := best_within (values input) (values best) (values target) field
  have htarget :=
    target_within (values input) (values best) (values target) field
  change type.arithmetic.normalizeAxis ⟨id (values input field),
    id (values best field), id (values target field)⟩ = _
  rw [FeatureArithmetic.normalizeAxis_eq fun _ _ => rfl]
  have hscale : ∀ point : Fin (n + 1) → type.Value,
      axisLow (values input) (values best) (values target) field ≤
          values point field ∧
        values point field ≤
          axisHigh (values input) (values best) (values target) field →
      type.arithmetic.scale
          (axisLow (values input) (values best) (values target) field)
          (axisHigh (values input) (values best) (values target) field)
          (values point field) =
        if axisRange (values input) (values best) (values target) field ≠ 0 ∧
            type.promoted.Holds
              (axisRange (values input) (values best) (values target) field)
          then some (integerScaled (values input) (values best) (values target)
            (values point) field)
        else none :=
    fun point hwithin =>
      scale_eq hlow hhigh (point field).2 hwithin.1 hwithin.2
  simp only [id, hscale input hinput, hscale best hbest, hscale target htarget]
  split <;> rfl

theorem integer_normalize (hspanned :
    Spanned type (values input) (values best) (values target)) :
    type.arithmetic.normalizeDatafeatures n n.lt_succ_self
        (fun field => ⟨type.arithmetic.copy (input field),
          type.arithmetic.copy (best field),
          type.arithmetic.copy (target field)⟩) =
      some fun field => ⟨
        integerScaled (values input) (values best) (values target)
          (values input) field,
        integerScaled (values input) (values best) (values target)
          (values best) field,
        integerScaled (values input) (values best) (values target)
          (values target) field⟩ := by
  rw [FeatureArithmetic.normalizeDatafeatures_eq]
  intro field
  rw [integer_normalizeAxis, if_pos (hspanned field)]

/-- Where an axis is not spanned, nothing is normalized. -/
theorem integer_normalize_none (hnot :
    ¬ Spanned type (values input) (values best) (values target)) :
    type.arithmetic.normalizeDatafeatures n n.lt_succ_self
        (fun field => ⟨type.arithmetic.copy (input field),
          type.arithmetic.copy (best field),
          type.arithmetic.copy (target field)⟩) = none := by
  rw [Option.eq_none_iff_forall_ne_some]
  intro normalized hnormalized
  rw [FeatureArithmetic.normalizeDatafeatures_eq] at hnormalized
  apply hnot
  intro field
  have haxis := hnormalized field
  rw [integer_normalizeAxis] at haxis
  by_contra hnone
  rw [if_neg hnone] at haxis
  contradiction

/-- The scaled points differ on the axes that keep them apart. -/
theorem squaredDistance_integerScaled (input best target key : Fin (n + 1) → Int) :
    squaredDistance (integerScaled input best target input)
      (integerScaled input best target key) = apart input best target key := by
  rw [squaredDistance, apart, Finset.natCast_card_filter]
  apply Finset.sum_congr rfl
  intro field _
  rw [integerScaled, integerScaled]
  by_cases hinput : input field = axisHigh input best target field <;>
    by_cases hkey : key field = axisHigh input best target field <;>
      simp [hinput, hkey]

variable {input best target} {cfs : Fin (n + 1) → FeatureComparison}

/-- Integers of the same validity are compared by the number of the axes that
keep them apart from the input, modulo the width. -/
theorem integer_getClosestNormalized
    (hvalidity : Admissible cfs input best ↔ Admissible cfs input target)
    (hspanned : Spanned type (values input) (values best) (values target)) :
    type.arithmetic.getClosestNormalized cfs input best target =
      some (decide (
        type.wrap (apart (values input) (values best) (values target)
          (values target)) <
        type.wrap (apart (values input) (values best) (values target)
          (values best)))) := by
  rw [FeatureArithmetic.getClosestNormalized_eq hvalidity,
    integer_normalize input best target hspanned, Option.map_some]
  have hdistance : ∀ key : Fin (n + 1) → Int,
      type.arithmetic.distance
          (fun field => integerScaled (values input) (values best)
            (values target) (values input) field)
          (fun field => integerScaled (values input) (values best)
            (values target) key field) n n.lt_succ_self =
        type.wrap (apart (values input) (values best) (values target) key) := by
    intro key
    rw [distance_eq_wrap, dataFeaturesDistance_eq]
    exact congrArg type.wrap (squaredDistance_integerScaled _ _ _ _)
  simp only [hdistance]
  rfl

theorem integer_getClosestNormalized_none
    (hvalidity : Admissible cfs input best ↔ Admissible cfs input target)
    (hnot : ¬ Spanned type (values input) (values best) (values target)) :
    type.arithmetic.getClosestNormalized cfs input best target = none := by
  rw [FeatureArithmetic.getClosestNormalized_eq hvalidity,
    integer_normalize_none input best target hnot, Option.map_none]

end Normalizing

section Exact

variable {input best target key : Fin (n + 1) → Int}

/-- Whether each division of a coordinate leaves no remainder. -/
def Divides (input best target key : Fin (n + 1) → Int) : Prop :=
  ∀ field, axisRange input best target field ∣
    key field - axisLow input best target field

instance (input best target key : Fin (n + 1) → Int) :
    Decidable (Divides input best target key) :=
  inferInstanceAs (Decidable (∀ field, axisRange input best target field ∣
    key field - axisLow input best target field))

theorem eq_zero_or_eq_of_dvd {offset width : Int} (hnonneg : 0 ≤ offset)
    (hle : offset ≤ width) (hdvd : width ∣ offset) :
    offset = 0 ∨ offset = width := by
  rcases hnonneg.eq_or_lt with hzero | hpos
  · exact .inl hzero.symm
  · exact .inr (le_antisymm hle (Int.le_of_dvd hpos hdvd))

theorem axisRange_cast (input best target : Fin (n + 1) → Int)
    (field : Fin (n + 1)) :
    axisRange (fun field => (input field : ℚ)) (fun field => (best field : ℚ))
        (fun field => (target field : ℚ)) field =
      (axisRange input best target field : ℤ) := by
  simp only [axisRange, axisHigh, axisLow, Int.cast_sub, Int.cast_max,
    Int.cast_min]

theorem axisLow_cast (input best target : Fin (n + 1) → Int)
    (field : Fin (n + 1)) :
    axisLow (fun field => (input field : ℚ)) (fun field => (best field : ℚ))
        (fun field => (target field : ℚ)) field =
      (axisLow input best target field : ℤ) := by
  simp only [axisLow, Int.cast_min]

/-- A coordinate that is divided exactly is at an end of its axis. -/
theorem integerScaled_cast {field : Fin (n + 1)}
    (hrange : axisRange input best target field ≠ 0)
    (hlow : axisLow input best target field ≤ key field)
    (hhigh : key field ≤ axisHigh input best target field)
    (hdvd : axisRange input best target field ∣
      key field - axisLow input best target field) :
    ((key field : ℚ) - (axisLow input best target field : ℤ)) /
        (axisRange input best target field : ℤ) =
      (integerScaled input best target key field : ℤ) := by
  have hle : key field - axisLow input best target field ≤
      axisRange input best target field := sub_le_sub_right hhigh _
  have hcast : ((axisRange input best target field : ℤ) : ℚ) ≠ 0 :=
    Int.cast_ne_zero.mpr hrange
  have hwidth : axisRange input best target field =
      axisHigh input best target field - axisLow input best target field := rfl
  rw [← Int.cast_sub, integerScaled]
  rcases eq_zero_or_eq_of_dvd (sub_nonneg.mpr hlow) hle hdvd with hend | hend
  · rw [hend, Int.cast_zero, zero_div, if_neg (by omega), Int.cast_zero]
  · rw [hend, div_self hcast, if_pos (by omega), Int.cast_one]

/-- Where the divisions leave no remainder, the axes are counted that the
normalized distance adds up. -/
theorem normalizedDistance_eq_apart
    (hrange : ∀ field, axisRange input best target field ≠ 0)
    (hinput : Divides input best target input)
    (hkey : Divides input best target key)
    (hwithin : ∀ field, axisLow input best target field ≤ key field ∧
      key field ≤ axisHigh input best target field) :
    normalizedDistance (fun field => (input field : ℚ))
        (fun field => (best field : ℚ)) (fun field => (target field : ℚ))
        (fun field => (key field : ℚ)) = (apart input best target key : ℤ) := by
  rw [← squaredDistance_integerScaled,
    ← FeatureArithmetic.squaredDistance_scaled, squaredDistance,
    squaredDistance, Int.cast_sum]
  apply Finset.sum_congr rfl
  intro field _
  have hends := input_within input best target field
  rw [axisRange_cast, axisLow_cast,
    integerScaled_cast (hrange field) hends.1 hends.2 (hinput field),
    integerScaled_cast (hrange field) (hwithin field).1 (hwithin field).2
      (hkey field)]
  push_cast
  rfl

theorem wrap_apart (hholds : type.Holds (n + 1)) :
    type.wrap (apart input best target key) = apart input best target key := by
  have hle : apart input best target key ≤ n + 1 := by
    have hcard := Finset.card_filter_le (Finset.univ : Finset (Fin (n + 1)))
      fun field => ¬ (input field = axisHigh input best target field ↔
        key field = axisHigh input best target field)
    rw [Finset.card_univ, Fintype.card_fin] at hcard
    rw [apart]
    exact_mod_cast hcard
  exact wrap_of_holds (holds_of_le (Int.natCast_nonneg _) hle hholds)

end Exact

end IntegerType

end Margot
